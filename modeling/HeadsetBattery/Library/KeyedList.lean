import Mathlib.Data.List.Nodup

/-!
# Lists with pairwise distinct keys

A list whose elements carry a key no other element has is a finite map, with
an order and with indices. The lemmas say what each list operation does to the
map, so that code working through indices can be read through keys.
-/
namespace KeyedList

variable {α κ : Type*}

/-- A list around one of its indices, with what `set` and `eraseIdx` make of
it. -/
theorem split_at {l : List α} {i : ℕ} {a : α} (hi : l[i]? = some a) :
    ∃ before after, l = before ++ a :: after ∧ (∀ b, l.set i b = before ++ b :: after) ∧
      l.eraseIdx i = before ++ after := by
  obtain ⟨hlt, hget⟩ := List.getElem?_eq_some_iff.1 hi
  have hdrop : l.drop i = a :: l.drop (i + 1) := by rw [List.drop_eq_getElem_cons hlt, hget]
  refine ⟨l.take i, l.drop (i + 1), ?_, fun b => ?_, List.eraseIdx_eq_take_drop_succ l i⟩
  · rw [← hdrop, List.take_append_drop]
  · rw [List.set_eq_take_append_cons_drop, if_pos hlt]

theorem nodup_set {key : α → κ} {l : List α} {i : ℕ} {a b : α} (hn : (l.map key).Nodup)
    (hi : l[i]? = some a) (hb : key b = key a) : ((l.set i b).map key).Nodup := by
  obtain ⟨before, after, rfl, hset, -⟩ := split_at hi
  rw [hset b]
  simpa [hb] using hn

theorem nodup_eraseIdx {key : α → κ} {l : List α} (hn : (l.map key).Nodup) (i : ℕ) :
    ((l.eraseIdx i).map key).Nodup :=
  hn.sublist ((List.eraseIdx_sublist l i).map key)

/-! ## The indices of some elements -/

theorem filter_zipIdx_fst (p : α → Bool) (l : List α) :
    (l.zipIdx.filter fun v => p v.1).map Prod.fst = l.filter p := by
  have hfilter := List.filter_map (p := p) (f := Prod.fst) (l := l.zipIdx)
  rw [List.zipIdx_map_fst] at hfilter
  exact hfilter.symm

/-- Which indices they are depends on the keys alone. -/
theorem filter_zipIdx_snd (p : κ → Bool) (key : α → κ) (l : List α) :
    ((l.map key).zipIdx.filter fun v => p v.1).map Prod.snd =
      (l.zipIdx.filter fun v => p (key v.1)).map Prod.snd := by
  rw [List.zipIdx_map, List.filter_map, List.map_map]
  rfl

/-! ## Keys -/

variable [DecidableEq κ]

/-- The element with a key. -/
def lookup (key : α → κ) (l : List α) (k : κ) : Option α := l.find? (fun a => decide (key a = k))

@[simp] theorem lookup_nil (key : α → κ) (k : κ) : lookup key [] k = none := rfl

theorem lookup_append (key : α → κ) (l m : List α) (k : κ) :
    lookup key (l ++ m) k = (lookup key l k).or (lookup key m k) := List.find?_append

@[simp] theorem lookup_singleton (key : α → κ) (a : α) (k : κ) :
    lookup key [a] k = if key a = k then some a else none := by
  by_cases h : key a = k <;> simp [lookup, h]

theorem lookup_cons (key : α → κ) (a : α) (l : List α) (k : κ) :
    lookup key (a :: l) k = if key a = k then some a else lookup key l k := by
  by_cases h : key a = k <;> simp [lookup, h]

theorem lookup_eq_none {key : α → κ} {l : List α} {k : κ} :
    lookup key l k = none ↔ ∀ a ∈ l, key a ≠ k := by
  simp [lookup]

theorem mem_of_lookup {key : α → κ} {l : List α} {k : κ} {a : α} (h : lookup key l k = some a) :
    a ∈ l ∧ key a = k :=
  ⟨List.mem_of_find?_eq_some h, by simpa using List.find?_some h⟩

theorem lookup_eq_some {key : α → κ} {l : List α} (hn : (l.map key).Nodup) {k : κ} {a : α} :
    lookup key l k = some a ↔ a ∈ l ∧ key a = k := by
  refine ⟨mem_of_lookup, fun ⟨ha, hk⟩ => ?_⟩
  cases h : lookup key l k with
  | none => exact absurd hk (lookup_eq_none.1 h a ha)
  | some b =>
      obtain ⟨hb, hkb⟩ := mem_of_lookup h
      rw [List.inj_on_of_nodup_map hn hb ha (hkb.trans hk.symm)]

/-- At most one element has a key. -/
theorem filter_eq_lookup {key : α → κ} {l : List α} (hn : (l.map key).Nodup) (k : κ) :
    l.filter (fun a => decide (key a = k)) = (lookup key l k).toList := by
  induction l with
  | nil => rfl
  | cons a l ih =>
      obtain ⟨ha, hn⟩ := List.nodup_cons.1 hn
      rw [List.filter_cons, lookup_cons]
      by_cases hk : key a = k
      · have hnone : lookup key l k = none := by
          refine lookup_eq_none.2 fun b hb he => ha ?_
          rw [hk, ← he]
          exact List.mem_map_of_mem hb
        simp [hk, ih hn, hnone]
      · simp [hk, ih hn]

theorem lookup_set {key : α → κ} {l : List α} {i : ℕ} {a b : α} (hn : (l.map key).Nodup)
    (hi : l[i]? = some a) (hb : key b = key a) (k : κ) :
    lookup key (l.set i b) k = if k = key a then some b else lookup key l k := by
  obtain ⟨before, after, rfl, hset, -⟩ := split_at hi
  rw [hset b]
  have hfresh : lookup key before (key a) = none := by
    refine lookup_eq_none.2 fun c hc he => ?_
    simp only [List.map_append, List.map_cons] at hn
    exact (List.nodup_append.1 hn).2.2 (key c) (List.mem_map_of_mem hc) (key a) (by simp) he
  by_cases hk : k = key a
  · subst hk
    simp [lookup_append, lookup_cons, hfresh, hb]
  · simp [lookup_append, lookup_cons, hb, hk, Ne.symm hk]

theorem lookup_eraseIdx {key : α → κ} {l : List α} {i : ℕ} {a : α} (hn : (l.map key).Nodup)
    (hi : l[i]? = some a) (k : κ) :
    lookup key (l.eraseIdx i) k = if k = key a then none else lookup key l k := by
  obtain ⟨before, after, rfl, -, herase⟩ := split_at hi
  rw [herase]
  simp only [List.map_append, List.map_cons] at hn
  obtain ⟨-, hafter, hcross⟩ := List.nodup_append.1 hn
  by_cases hk : k = key a
  · subst hk
    rw [if_pos rfl, lookup_eq_none]
    intro c hc he
    rcases List.mem_append.1 hc with hc | hc
    · exact hcross (key c) (List.mem_map_of_mem hc) (key a) (by simp) he
    · exact (List.nodup_cons.1 hafter).1 (he ▸ List.mem_map_of_mem hc)
  · simp [lookup_append, lookup_cons, hk, Ne.symm hk]

theorem lookup_map {key : α → κ} {l : List α} {f : α → α} (hf : ∀ a, key (f a) = key a) (k : κ) :
    lookup key (l.map f) k = (lookup key l k).map f := by
  have hkeys : (fun e => decide (key e = k)) ∘ f = fun e => decide (key e = k) := by
    funext a
    simp [hf]
  rw [lookup, List.find?_map, hkeys, lookup]

/-- The index of a key is where its element stands. -/
theorem findIdx?_eq_some {key : α → κ} {l : List α} {k : κ} {i : ℕ}
    (h : l.findIdx? (fun a => decide (key a = k)) = some i) :
    ∃ a, l[i]? = some a ∧ lookup key l k = some a := by
  obtain ⟨hlt, hk, hbefore⟩ := List.findIdx?_eq_some_iff_getElem.1 h
  refine ⟨l[i], by simp [hlt], List.find?_eq_some_iff_getElem.2 ⟨hk, i, hlt, rfl, ?_⟩⟩
  intro j hj
  simpa using hbefore j hj

theorem findIdx?_eq_none {key : α → κ} {l : List α} {k : κ} :
    l.findIdx? (fun a => decide (key a = k)) = none ↔ lookup key l k = none := by
  simp [lookup, List.findIdx?_eq_none_iff]

theorem nodup_append_singleton {key : α → κ} {l : List α} {a : α} (hn : (l.map key).Nodup)
    (ha : lookup key l (key a) = none) : ((l ++ [a]).map key).Nodup := by
  rw [List.map_append, List.nodup_append]
  refine ⟨hn, by simp, ?_⟩
  intro k hk k' hk' he
  obtain ⟨b, hb, rfl⟩ := List.mem_map.1 hk
  simp only [List.map_cons, List.map_nil, List.mem_singleton] at hk'
  exact lookup_eq_none.1 ha b hb (he.trans hk')

end KeyedList

/-! ## Two lists kept in step -/

namespace List

variable {α β : Type*}

theorem zip_set_set (l : List α) (m : List β) (i : ℕ) (a : α) (b : β) :
    (l.set i a).zip (m.set i b) = (l.zip m).set i (a, b) := by
  induction l generalizing m i with
  | nil => simp
  | cons x l ih => cases m <;> cases i <;> simp [ih]

theorem zip_eraseIdx_eraseIdx {l : List α} {m : List β} (h : l.length = m.length) (i : ℕ) :
    (l.eraseIdx i).zip (m.eraseIdx i) = (l.zip m).eraseIdx i := by
  induction l generalizing m i with
  | nil => simp
  | cons x l ih =>
      cases m with
      | nil => simp at h
      | cons y m => cases i <;> simp [ih (Nat.succ.inj h)]

end List
