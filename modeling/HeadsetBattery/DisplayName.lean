import HeadsetBattery.Headset
import Mathlib.Data.String.Basic

/-!
# Names a kernel can take

The cut of a name is made by counting bytes back to a character boundary. A
boundary is the length of a prefix in bytes, so the cut leaves the longest
prefix that fits.
-/
namespace HeadsetBattery.Headset

theorem byteLength_eq_utf8Len (cs : List Char) : byteLength cs = String.utf8Len cs := by
  induction cs with
  | nil => rfl
  | cons c cs ih =>
      rw [String.utf8Len_cons, ← ih, Nat.add_comm]
      rfl

theorem utf8ByteSize_eq_byteLength (s : String) : s.utf8ByteSize = byteLength s.toList := by
  rw [byteLength_eq_utf8Len, ← String.utf8ByteSize_ofList, String.ofList_toList]

@[simp] theorem byteLength_nil : byteLength [] = 0 := rfl

@[simp] theorem byteLength_cons (c : Char) (cs : List Char) :
    byteLength (c :: cs) = c.utf8Size + byteLength cs := rfl

theorem byteLength_append (cs ds : List Char) :
    byteLength (cs ++ ds) = byteLength cs + byteLength ds := by
  simp [byteLength]

theorem byteLength_eq_zero {cs : List Char} : byteLength cs = 0 ↔ cs = [] := by
  rw [byteLength_eq_utf8Len, String.utf8Len_eq_zero]

theorem byteLength_le_of_start {p cs : List Char} (h : p <+: cs) : byteLength p ≤ byteLength cs := by
  obtain ⟨rest, rfl⟩ := h
  rw [byteLength_append]
  omega

/-- A boundary is where some prefix ends. -/
theorem isCharBoundary_iff {cs : List Char} {n : ℕ} :
    isCharBoundary cs n = true ↔ ∃ p, p <+: cs ∧ byteLength p = n := by
  induction cs generalizing n with
  | nil => cases n <;> simp [isCharBoundary]
  | cons c cs ih =>
      cases n with
      | zero => exact iff_of_true rfl ⟨[], List.nil_prefix, rfl⟩
      | succ n =>
          rw [isCharBoundary, Bool.and_eq_true, decide_eq_true_eq, ih]
          constructor
          · rintro ⟨hle, p, hp, hlen⟩
            refine ⟨c :: p, (List.prefix_cons_inj c).2 hp, ?_⟩
            rw [byteLength_cons]
            omega
          · rintro ⟨p, hp, hlen⟩
            cases p with
            | nil => simp at hlen
            | cons d p =>
                obtain ⟨rfl, hrest⟩ := List.cons_prefix_cons.1 hp
                rw [byteLength_cons] at hlen
                exact ⟨by omega, p, hrest, by omega⟩

/-- Stepping back finds the last boundary there is. -/
theorem floorBoundary_spec (cs : List Char) (n : ℕ) :
    floorBoundary cs n ≤ n ∧ isCharBoundary cs (floorBoundary cs n) = true ∧
      ∀ m ≤ n, isCharBoundary cs m = true → m ≤ floorBoundary cs n := by
  induction n with
  | zero => exact ⟨le_rfl, by cases cs <;> rfl, fun m hm _ => hm⟩
  | succ n ih =>
      rw [floorBoundary]
      split
      next hboundary => exact ⟨le_rfl, hboundary, fun m hm _ => hm⟩
      next hinside =>
        obtain ⟨hle, hboundary, hlast⟩ := ih
        refine ⟨by omega, hboundary, fun m hm hm' => ?_⟩
        by_cases heq : m = n + 1
        · exact absurd (heq ▸ hm') hinside
        · exact hlast m (by omega) hm'

/-- Cutting where a prefix ends leaves it. -/
theorem truncate_byteLength {p cs : List Char} (h : p <+: cs) : truncate cs (byteLength p) = p := by
  induction p generalizing cs with
  | nil => cases cs <;> rfl
  | cons c p ih =>
      cases cs with
      | nil => simp at h
      | cons d cs =>
          obtain ⟨rfl, hp⟩ := List.cons_prefix_cons.1 h
          have hpos := c.utf8Size_pos
          obtain ⟨n, hn⟩ := Nat.exists_eq_add_one_of_ne_zero
            (by rw [byteLength_cons]; omega : byteLength (c :: p) ≠ 0)
          have hrest : n + 1 - c.utf8Size = byteLength p := by
            rw [← hn, byteLength_cons]
            omega
          rw [hn, truncate, hrest, ih hp]

/-- The longest prefix of a text with at most so many bytes. -/
structure LongestFitting (limit : ℕ) (cs p : List Char) : Prop where
  start : p <+: cs
  fits : byteLength p ≤ limit
  longest : ∀ q, q <+: cs → byteLength q ≤ limit → q <+: p

theorem longestFitting_truncate (limit : ℕ) (cs : List Char) :
    LongestFitting limit cs (truncate cs (floorBoundary cs (min (byteLength cs) limit))) := by
  obtain ⟨hle, hboundary, hlast⟩ := floorBoundary_spec cs (min (byteLength cs) limit)
  obtain ⟨p, hp, hlen⟩ := isCharBoundary_iff.1 hboundary
  rw [← hlen] at hle hlast ⊢
  rw [truncate_byteLength hp]
  refine ⟨hp, by omega, fun q hq hfits => ?_⟩
  have hshorter : byteLength q ≤ byteLength p :=
    hlast _ (le_min (byteLength_le_of_start hq) hfits) (isCharBoundary_iff.2 ⟨q, hq, rfl⟩)
  obtain hqp | ⟨rest, rfl⟩ := List.prefix_or_prefix_of_prefix hq hp
  · exact hqp
  · rw [byteLength_append] at hshorter
    have hnone : rest = [] := byteLength_eq_zero.1 (by omega)
    simp [hnone]

/-! ## The names given to the kernel -/

/-- The name with its control characters removed. -/
def cleaned (h : Headset) : List Char := h.name.toList.filter fun c => !isControl c

/-- A name desktops can show: it fits the kernel's field, has no control character
and is not blank. -/
structure Showable (name : String) : Prop where
  fits : name.utf8ByteSize ≤ maxBytes
  printable : ∀ c ∈ name.toList, isControl c = false
  visible : ∃ c ∈ name.toList, isWhitespace c = false

/-- A digit, a lowercase letter, a dash or a slash. -/
def Plain (c : Char) : Prop := ('0' ≤ c ∧ c ≤ '9') ∨ ('a' ≤ c ∧ c ≤ 'z') ∨ c = '-' ∨ c = '/'

instance (c : Char) : Decidable (Plain c) :=
  inferInstanceAs (Decidable (_ ∨ _ ∨ _ ∨ _))

/-- Plain letter by letter, for a text that is known. -/
theorem plain_of_all {s : String} (h : s.toList.all (fun c => decide (Plain c)) = true) :
    ∀ c ∈ s.toList, Plain c := by
  simpa using h

/-- An identifier with nothing exotic in it, that fits the kernel's field. -/
structure FileSafe (id : String) : Prop where
  fits : id.utf8ByteSize ≤ 63
  plain : ∀ c ∈ id.toList, Plain c

theorem displayName_cases (h : Headset) :
    (h.displayName = "Headset" ∨ ∃ c ∈ h.displayName.toList, isWhitespace c = false) ∧
      (h.displayName = "Headset" ∨ LongestFitting maxBytes h.cleaned h.displayName.toList) := by
  have hcut := longestFitting_truncate maxBytes h.cleaned
  rw [displayName]
  split
  · exact ⟨.inl rfl, .inl rfl⟩
  next hvisible =>
    rw [String.toList_ofList]
    refine ⟨.inr ?_, .inr hcut⟩
    simpa using hvisible

/-- A control character of a prefix would be one of the cleaned name. -/
theorem displayName_showable (h : Headset) : Showable h.displayName := by
  obtain ⟨hvisible, hname⟩ := h.displayName_cases
  obtain heq | ⟨hstart, hfits, -⟩ := hname
  · rw [heq]
    have hprintable : "Headset".toList.all (fun c => !isControl c) = true := by decide
    exact ⟨by decide, by simpa using hprintable, ⟨'H', by decide, by decide⟩⟩
  · refine ⟨by rwa [utf8ByteSize_eq_byteLength], fun c hc => ?_, ?_⟩
    · simpa using (List.mem_filter.1 (hstart.subset hc)).2
    · obtain heq | hvisible := hvisible
      · rw [heq]
        exact ⟨'H', by decide, by decide⟩
      · exact hvisible

theorem digitChar_plain {n : ℕ} (hn : n < 16) : n.digitChar.utf8Size = 1 ∧ Plain n.digitChar := by
  have all : ∀ x : Fin 16, x.val.digitChar.utf8Size = 1 ∧ Plain x.val.digitChar := by decide
  exact all ⟨n, hn⟩

theorem hex4_plain (n : UInt16) :
    (hex4 n).utf8ByteSize = 4 ∧ ∀ c ∈ (hex4 n).toList, Plain c := by
  have hlt := n.toNat_lt
  have d3 := digitChar_plain (n := n.toNat / 4096) (by omega)
  have d2 := digitChar_plain (n := n.toNat / 256 % 16) (by omega)
  have d1 := digitChar_plain (n := n.toNat / 16 % 16) (by omega)
  have d0 := digitChar_plain (n := n.toNat % 16) (by omega)
  constructor
  · rw [utf8ByteSize_eq_byteLength]
    simp [hex4, d3.1, d2.1, d1.1, d0.1]
  · simp [hex4, d3.2, d2.2, d1.2, d0.2]

/-- The identifier and any plain text put before it are plain, and as long as the text
and seventeen bytes. -/
theorem uniq_plain (h : Headset) {start : String} (hstart : ∀ c ∈ start.toList, Plain c) :
    (start ++ h.uniq).utf8ByteSize = start.utf8ByteSize + 17 ∧
      ∀ c ∈ (start ++ h.uniq).toList, Plain c := by
  obtain ⟨hvsize, hvplain⟩ := hex4_plain h.vendorId
  obtain ⟨hpsize, hpplain⟩ := hex4_plain h.productId
  have hheadset : "headset-".utf8ByteSize = 8 ∧ ∀ c ∈ "headset-".toList, Plain c :=
    ⟨by decide, plain_of_all (by decide)⟩
  have hdash : "-".utf8ByteSize = 1 ∧ ∀ c ∈ "-".toList, Plain c :=
    ⟨by decide, plain_of_all (by decide)⟩
  constructor
  · simp only [uniq, String.utf8ByteSize_append, hvsize, hpsize, hheadset.1, hdash.1]
  · intro c hc
    simp only [uniq, String.toList_append, List.mem_append] at hc
    rcases hc with hc | ((hc | hc) | hc) | hc
    · exact hstart c hc
    · exact hheadset.2 c hc
    · exact hvplain c hc
    · exact hdash.2 c hc
    · exact hpplain c hc

theorem uniq_fileSafe (h : Headset) : FileSafe h.uniq := by
  obtain ⟨hsize, hplain⟩ := h.uniq_plain (by simp : ∀ c ∈ "".toList, Plain c)
  rw [String.empty_append] at hsize hplain
  exact ⟨by rw [hsize]; decide, hplain⟩

end HeadsetBattery.Headset
