import Mathlib.Data.List.Nodup
import Mathlib.Order.Lattice

/-!
# Maps kept sorted by key

A finite map as the list of its entries in increasing key order, which is the
order an iteration visits them in. Sortedness is a field, so that a map with a
key twice cannot be built, and lookups are unique without further hypotheses.
-/

structure OrderedMap (κ ν : Type*) [LinearOrder κ] where
  entries : List (κ × ν)
  sorted : entries.Pairwise (fun a b => a.1 < b.1)

namespace OrderedMap

variable {κ ν : Type*} [LinearOrder κ]

def empty : OrderedMap κ ν := ⟨[], List.Pairwise.nil⟩

def get? (m : OrderedMap κ ν) (k : κ) : Option ν :=
  (m.entries.find? (fun e => decide (e.1 = k))).map Prod.snd

/-- Keep the entries a predicate accepts. -/
def retain (m : OrderedMap κ ν) (p : κ → ν → Bool) : OrderedMap κ ν :=
  ⟨m.entries.filter (fun e => p e.1 e.2), m.sorted.filter _⟩

def erase (m : OrderedMap κ ν) (k : κ) : OrderedMap κ ν :=
  m.retain (fun k' _ => decide (k' ≠ k))

/-- Set the value of a key, in its place in the order. -/
def insert (m : OrderedMap κ ν) (k : κ) (v : ν) : OrderedMap κ ν where
  entries := m.entries.filter (fun e => decide (e.1 < k)) ++
    (k, v) :: m.entries.filter (fun e => decide (k < e.1))
  sorted := by
    refine List.pairwise_append.2 ⟨m.sorted.filter _, ?_, ?_⟩
    · exact List.pairwise_cons.2 ⟨fun e he => by simpa using (List.mem_filter.1 he).2,
        m.sorted.filter _⟩
    · intro a ha b hb
      have hak : a.1 < k := by simpa using (List.mem_filter.1 ha).2
      rcases List.mem_cons.1 hb with rfl | hb
      · exact hak
      · exact hak.trans (by simpa using (List.mem_filter.1 hb).2)

theorem keys_nodup (m : OrderedMap κ ν) : (m.entries.map Prod.fst).Nodup :=
  List.pairwise_map.2 (m.sorted.imp fun h => h.ne)

theorem key_injective (m : OrderedMap κ ν) {a b : κ × ν} (ha : a ∈ m.entries)
    (hb : b ∈ m.entries) (h : a.1 = b.1) : a = b :=
  List.inj_on_of_nodup_map m.keys_nodup ha hb h

theorem get?_eq_some (m : OrderedMap κ ν) {k : κ} {v : ν} :
    m.get? k = some v ↔ (k, v) ∈ m.entries := by
  constructor
  · intro h
    obtain ⟨e, he, rfl⟩ := Option.map_eq_some_iff.1 h
    have hk : e.1 = k := by simpa using List.find?_some he
    exact hk ▸ List.mem_of_find?_eq_some he
  · intro h
    have hsome : (m.entries.find? (fun e => decide (e.1 = k))).isSome :=
      List.find?_isSome.2 ⟨(k, v), h, by simp⟩
    obtain ⟨e, he⟩ := Option.isSome_iff_exists.1 hsome
    have hk : e.1 = k := by simpa using List.find?_some he
    have hev : e = (k, v) := m.key_injective (List.mem_of_find?_eq_some he) h hk
    simp [get?, he, hev]

@[simp] theorem get?_empty (k : κ) : (empty : OrderedMap κ ν).get? k = none := rfl

theorem get?_retain (m : OrderedMap κ ν) (p : κ → ν → Bool) (k : κ) (v : ν) :
    (m.retain p).get? k = some v ↔ m.get? k = some v ∧ p k v = true := by
  simp only [get?_eq_some, retain, List.mem_filter]

@[simp] theorem get?_erase (m : OrderedMap κ ν) (k k' : κ) :
    (m.erase k).get? k' = if k' = k then none else m.get? k' := by
  apply Option.ext
  intro v
  rw [erase, get?_retain]
  by_cases h : k' = k <;> simp [h]

@[simp] theorem get?_insert (m : OrderedMap κ ν) (k k' : κ) (v : ν) :
    (m.insert k v).get? k' = if k' = k then some v else m.get? k' := by
  apply Option.ext
  intro w
  rw [get?_eq_some]
  by_cases h : k' = k
  · subst h
    simp [insert, List.mem_filter, eq_comm]
  · have hord : k' < k ∨ k < k' := lt_or_gt_of_ne h
    have hmem : (k', w) ∈ (m.insert k v).entries ↔ (k', w) ∈ m.entries := by
      simp only [insert, List.mem_append, List.mem_filter, List.mem_cons, Prod.mk.injEq, h,
        false_and, false_or, decide_eq_true_eq, ← and_or_left, hord, and_true]
    rw [hmem, if_neg h, get?_eq_some]

/-- Setting a key to the value it has changes nothing. -/
theorem insert_self (m : OrderedMap κ ν) {k : κ} {v : ν} (h : m.get? k = some v) :
    m.insert k v = m := by
  obtain ⟨before, after, he⟩ := List.append_of_mem (m.get?_eq_some.1 h)
  have hs := m.sorted
  rw [he, List.pairwise_append, List.pairwise_cons] at hs
  obtain ⟨-, ⟨hafter, -⟩, hbefore⟩ := hs
  have hlt : ∀ e ∈ before, e.1 < k := fun e hm => hbefore e hm (k, v) (by simp)
  have low : m.entries.filter (fun e => decide (e.1 < k)) = before := by
    rw [he, List.filter_append, List.filter_eq_self.2 (by simpa using hlt),
      List.filter_eq_nil_iff.2 (by simpa using fun a b hm => (hafter _ hm).le), List.append_nil]
  have high : m.entries.filter (fun e => decide (k < e.1)) = after := by
    rw [he, List.filter_append, List.filter_eq_nil_iff.2 (by simpa using fun a b hm => (hlt _ hm).le),
      List.nil_append, List.filter_cons_of_neg (by simp), List.filter_eq_self.2 (by simpa using hafter)]
  obtain ⟨entries, sorted⟩ := m
  simp only [insert, mk.injEq]
  rw [low, high]
  exact he.symm

end OrderedMap
