import HeadsetBattery.Library.Scans
import HeadsetBattery.Maxwell.Frame

/-!
# The grammar of the dongle's report

The report is a stream of framed messages: a `05`, a type, the length of the
payload, a zero, the payload. The reader does not follow the lengths, it tries a
header at every offset. No header can begin in one message and end in the next,
so that what it finds is what a parser of the grammar would find.
-/
namespace HeadsetBattery.Maxwell

open Scans

/-- A framed message of the dongle; one byte holds the length of the payload. -/
structure Framed where
  type : UInt8
  payload : List UInt8
  fits : payload.length < 256

namespace Framed

/-- The type, the length and a zero, then the payload. -/
def body (m : Framed) : List UInt8 := m.type :: UInt8.ofNat m.payload.length :: 0x00 :: m.payload

def encode (m : Framed) : List UInt8 := 0x05 :: m.body

/-- The byte after the four that begin the payload, in a message of type `5d` whose
payload has this length and begins with these four. -/
def value (length : UInt8) (code : List UInt8) (m : Framed) : Option UInt8 :=
  if m.type = 0x5d ∧ m.payload.length = length.toNat ∧ m.payload.take 4 = code then m.payload[4]?
  else none

/-- The level in a battery answer. -/
def level : Framed → Option UInt8 := value 0x05 [0xd6, 0x0c, 0x00, 0x00]

/-- The state in a link event. -/
def linkState : Framed → Option UInt8 := value 0x0e [0xb1, 0x2c, 0x00, 0x02]

/-- What a message says: a level that is one, or whether the headset is linked. -/
def meaning (m : Framed) : Option Message :=
  match m.level with
  | some level => if level.toNat ≤ 100 then some (.battery level.toNat) else none
  | none => m.linkState.map fun state => .link (state != 0)

/-- `cut` is all that arrived of a message: its beginning, and of an answer or a
link event nothing from the value on. -/
structure CutTo (m : Framed) (cut : List UInt8) : Prop where
  beginning : cut <+: m.encode
  short : cut.length < m.encode.length
  valueless : m.level.isSome ∨ m.linkState.isSome → cut.length ≤ 8

end Framed

/-- The headers the reader looks for. -/
def headers : List (List UInt8) := [batteryAnswer, linkEvent]

/-- Bytes in which no header stands anywhere but at the second, the type byte of a
message. -/
def Clean (bytes : List UInt8) : Prop :=
  ∀ i < bytes.length, i ≠ 1 → ∀ header ∈ headers, ¬header <+: bytes.drop i

instance (bytes : List UInt8) : Decidable (Clean bytes) :=
  inferInstanceAs (Decidable (∀ i < bytes.length, i ≠ 1 → ∀ header ∈ headers,
    ¬header <+: bytes.drop i))

/-- What is read takes a header and a byte behind it. -/
theorem header_of_messageAt {rest : List UInt8} {said : Message} (h : messageAt rest = some said) :
    ∃ header ∈ headers, ∃ value after, rest = header ++ value :: after := by
  have hdrop : ∀ header : List UInt8, ((rest.dropPrefix? header).bind List.head?).isSome →
      ∃ value after, rest = header ++ value :: after := by
    intro header hsome
    obtain ⟨value, hvalue⟩ := Option.isSome_iff_exists.1 hsome
    obtain ⟨after, hafter, hhead⟩ := Option.bind_eq_some_iff.1 hvalue
    obtain ⟨header', rfl, heq⟩ := List.dropPrefix?_eq_some_iff.1 hafter
    obtain rfl := eq_of_beq heq
    obtain ⟨after', rfl⟩ := List.head?_eq_some_iff.1 hhead
    exact ⟨value, after', rfl⟩
  unfold messageAt at h
  split at h
  next value hvalue => exact ⟨batteryAnswer, by simp [headers], hdrop _ (by simp [hvalue])⟩
  next =>
    obtain ⟨state, hstate, -⟩ := Option.map_eq_some_iff.1 h
    exact ⟨linkEvent, by simp [headers], hdrop _ (by simp [hstate])⟩

/-- Headers are seven bytes long and begin with `5d`; further in, none goes on like
the first four bytes of a message. -/
theorem header_shape : ∀ header ∈ headers, header.length = 7 ∧ header[0]? = some 0x5d ∧
    ∀ k < 7, 0 < k → ¬((header.drop k)[0]? = some 0x05 ∧ (header.drop k)[3]?.all (· = 0x00)) := by
  decide

/-- Bytes that go on as a message does, as far as they go. -/
structure Begins (rest : List UInt8) : Prop where
  start : ∀ byte, rest[0]? = some byte → byte = 0x05
  zero : ∀ byte, rest[3]? = some byte → byte = 0x00

theorem Framed.begins (m : Framed) (rest : List UInt8) : Begins (m.encode ++ rest) :=
  ⟨by simp [encode, body, eq_comm], by simp [encode, body, eq_comm]⟩

theorem Begins.of_start {cut rest : List UInt8} (h : Begins rest) (hcut : cut <+: rest) :
    Begins cut := by
  have hsame : ∀ (i : ℕ) (byte : UInt8), cut[i]? = some byte → rest[i]? = some byte := by
    intro i byte hi
    obtain ⟨more, rfl⟩ := hcut
    obtain ⟨hlt, -⟩ := List.getElem?_eq_some_iff.1 hi
    rw [List.getElem?_append_left hlt, hi]
  exact ⟨fun byte hb => h.start byte (hsame 0 byte hb),
    fun byte hb => h.zero byte (hsame 3 byte hb)⟩

/-- No header begins in one part and ends in a message behind it. -/
theorem header_within {header part rest : List UInt8} (hheader : header ∈ headers)
    (hpart : part ≠ []) (hrest : Begins rest) (h : header <+: part ++ rest) : header <+: part := by
  obtain ⟨hlen, -, hshape⟩ := header_shape header hheader
  by_contra hnot
  have hshort : part.length < header.length := by
    by_contra hle
    exact hnot (List.prefix_of_prefix_length_le h (List.prefix_append part rest) (by omega))
  obtain ⟨more, rfl⟩ := List.prefix_of_prefix_length_le (List.prefix_append part rest) h hshort.le
  have hmore : more <+: rest := (List.prefix_append_right_inj part).1 h
  have hpos : 0 < part.length := List.length_pos_iff.2 hpart
  have hbegins := hrest.of_start hmore
  rw [List.length_append] at hlen hshort
  refine hshape part.length (by omega) hpos ?_
  rw [List.drop_left]
  constructor
  · have hmany : 0 < more.length := by omega
    have hfirst : more[0]? = some more[0] := List.getElem?_eq_getElem hmany
    rw [hfirst, hbegins.start _ hfirst]
  · rw [Option.all_eq_true]
    intro byte hbyte
    simpa using hbegins.zero byte hbyte

/-! ## What is read in one message -/

namespace Framed

/-- Behind the type byte a header stands only in the messages that have its value. -/
theorem mine_of_start (m : Framed) (rest : List UInt8) {length : UInt8} {code : List UInt8}
    (hcode : code.length = 4) (hlength : 4 < length.toNat)
    (h : (0x5d :: length :: 0x00 :: code) <+: m.body ++ rest) :
    m.type = 0x5d ∧ m.payload.length = length.toNat ∧ m.payload.take 4 = code := by
  obtain ⟨after, heq⟩ := h
  simp only [body, List.cons_append, List.cons.injEq] at heq
  obtain ⟨htype, hlen, -, hpayload⟩ := heq
  have hsize : m.payload.length = length.toNat := by
    rw [hlen]
    exact (UInt8.toNat_ofNat_of_lt' m.fits).symm
  refine ⟨htype.symm, hsize, ?_⟩
  have htake := congrArg (List.take 4) hpayload
  rw [List.take_append_of_le_length hcode.ge, List.take_append_of_le_length (by omega),
    List.take_of_length_le hcode.le] at htake
  exact htake.symm

/-- A message with a header at its type byte is an answer or a link event. -/
theorem carries_of_header (m : Framed) {header : List UInt8} (hheader : header ∈ headers)
    (h : header <+: m.body) : m.level.isSome ∨ m.linkState.isSome := by
  have isSome_value (length : UInt8) (code : List UInt8) (hcode : code.length = 4)
      (hlength : 4 < length.toNat) (h : (0x5d :: length :: 0x00 :: code) <+: m.body) :
      (m.value length code).isSome := by
    have hmine := m.mine_of_start [] hcode hlength (by simpa using h)
    rw [value, if_pos hmine, List.getElem?_eq_getElem (by omega)]
    rfl
  simp only [headers, List.mem_cons, List.not_mem_nil, or_false] at hheader
  obtain rfl | rfl := hheader
  · exact .inl (isSome_value _ _ rfl (by decide) h)
  · exact .inr (isSome_value _ _ rfl (by decide) h)

/-- Behind the type byte, a header stands in the messages that have its value, and
the byte after it is the value. -/
theorem head_of_body (m : Framed) (rest : List UInt8) {length : UInt8} {code : List UInt8}
    (hcode : code.length = 4) (hlength : 4 < length.toNat) :
    ((m.body ++ rest).dropPrefix? (0x5d :: length :: 0x00 :: code)).bind List.head? =
      m.value length code := by
  unfold value
  split
  next hmine =>
    obtain ⟨htype, hlen, htake⟩ := hmine
    have hbody : m.body ++ rest =
        (0x5d :: length :: 0x00 :: code) ++ (m.payload.drop 4 ++ rest) := by
      have hnat : UInt8.ofNat m.payload.length = length := by rw [hlen, UInt8.ofNat_toNat]
      rw [body, htype, hnat, ← htake]
      simp only [List.cons_append, ← List.append_assoc, List.take_append_drop]
    have hhead : (m.payload.drop 4)[0]? = m.payload[4]? := by simp
    have hne : 0 < (m.payload.drop 4).length := by
      rw [List.length_drop]
      omega
    rw [hbody, List.dropPrefix?_append_of_beq _ (beq_self_eq_true _), Option.bind_some,
      List.head?_eq_getElem?, List.getElem?_append_left hne, hhead]
  next hother =>
    rw [Option.bind_eq_none_iff]
    intro after hafter
    obtain ⟨header, heq, hbeq⟩ := List.dropPrefix?_eq_some_iff.1 hafter
    obtain rfl := eq_of_beq hbeq
    exact absurd (m.mine_of_start rest hcode hlength ⟨after, heq.symm⟩) hother

theorem messageAt_body (m : Framed) (rest : List UInt8) :
    messageAt (m.body ++ rest) = m.meaning := by
  have hlevel : ((m.body ++ rest).dropPrefix? batteryAnswer).bind List.head? = m.level :=
    m.head_of_body rest rfl (by decide)
  have hlink : ((m.body ++ rest).dropPrefix? linkEvent).bind List.head? = m.linkState :=
    m.head_of_body rest rfl (by decide)
  unfold messageAt meaning
  rewrite [hlevel, hlink]
  rfl

/-- In a message nothing is read but at its type byte, whatever comes behind it. -/
theorem messageAt_encode {m : Framed} {rest : List UInt8} (hclean : Clean m.encode)
    (hrest : Begins rest) {i : ℕ} (hi : i < m.encode.length) :
    messageAt (m.encode.drop i ++ rest) = if i = 1 then m.meaning else none := by
  split
  next hone =>
    subst hone
    exact m.messageAt_body rest
  next hne =>
    by_contra hsome
    obtain ⟨said, hsaid⟩ := Option.ne_none_iff_exists'.1 hsome
    obtain ⟨header, hheader, value, after, heq⟩ := header_of_messageAt hsaid
    have hpart : m.encode.drop i ≠ [] := by simpa using hi
    refine hclean i hi hne header hheader (header_within hheader hpart hrest ?_)
    exact ⟨value :: after, heq.symm⟩

theorem scan_encode {m : Framed} {rest : List UInt8} (hclean : Clean m.encode)
    (hrest : Begins rest) :
    scan messageAt (m.encode ++ rest) = m.meaning.toList ++ scan messageAt rest := by
  have hsilent : Silent messageAt (m.body.drop 1) rest := by
    intro i hi
    have hlt : i + 2 < m.encode.length := by
      simp only [encode, body, List.drop_succ_cons, List.drop_zero, List.length_cons] at hi ⊢
      omega
    have hnone := messageAt_encode hclean hrest hlt
    rwa [if_neg (by omega)] at hnone
  have hfirst := messageAt_encode hclean hrest (i := 0) (by simp [encode])
  have hsecond := m.messageAt_body rest
  have hsplit : scan messageAt (m.encode ++ rest) = (messageAt (m.encode.drop 0 ++ rest)).toList ++
      ((messageAt (m.body ++ rest)).toList ++ scan messageAt (m.body.drop 1 ++ rest)) := rfl
  rw [hsplit, hfirst, hsecond, scan_append_of_silent hsilent]
  rfl

/-- Nothing is read in a message that is cut off. -/
theorem CutTo.silent {m : Framed} {cut : List UInt8} (h : m.CutTo cut) (hclean : Clean cut) :
    Silent messageAt cut [] := by
  intro i hi
  by_contra hsome
  obtain ⟨said, hsaid⟩ := Option.ne_none_iff_exists'.1 hsome
  obtain ⟨header, hheader, value, after, heq⟩ := header_of_messageAt hsaid
  rw [List.append_nil] at heq
  have hat : header <+: cut.drop i := ⟨value :: after, heq.symm⟩
  by_cases hone : i = 1
  · subst hone
    obtain ⟨more, hmore⟩ := h.beginning
    have hcut : cut.drop 1 <+: m.body :=
      ⟨more, by rw [← List.drop_append_of_le_length hi.le, hmore]; rfl⟩
    have hbody : header <+: m.body := hat.trans hcut
    have hshort := h.valueless (m.carries_of_header hheader hbody)
    have hlen := congrArg List.length heq
    rw [List.length_drop, List.length_append, (header_shape header hheader).1,
      List.length_cons] at hlen
    omega
  · exact hclean i hi hone header hheader hat

theorem CutTo.begins {m : Framed} {cut : List UInt8} (h : m.CutTo cut) : Begins cut :=
  (m.begins []).of_start (by simpa using h.beginning)

end Framed

/-! ## What is read in a report -/

section Report

variable {ms : List Framed} {cut : List UInt8}

/-- Messages and what is cut off behind them begin as a message does. -/
theorem begins_flatMap (ms : List Framed) (hcut : Begins cut) :
    Begins (ms.flatMap Framed.encode ++ cut) := by
  cases ms with
  | nil => exact hcut
  | cons m ms =>
      rw [List.flatMap_cons, List.append_assoc]
      exact m.begins _

theorem scan_messages (hclean : ∀ m ∈ ms, Clean m.encode) (hcut : Begins cut)
    (hsilent : Silent messageAt cut []) :
    scan messageAt (ms.flatMap Framed.encode ++ cut) = ms.filterMap Framed.meaning := by
  induction ms with
  | nil => exact scan_of_silent hsilent
  | cons m ms ih =>
      have hrest := ih fun m' hm' => hclean m' (List.mem_cons_of_mem m hm')
      rw [List.flatMap_cons, List.append_assoc,
        Framed.scan_encode (hclean m List.mem_cons_self) (begins_flatMap ms hcut), hrest]
      cases hm : m.meaning <;> simp [hm]

/-- Whatever is read is read at the type byte of a message, and is what it says. -/
theorem read_at_type (hclean : ∀ m ∈ ms, Clean m.encode) (hcut : Begins cut)
    (hsilent : Silent messageAt cut []) {i : ℕ} {said : Message}
    (hread : messageAt ((ms.flatMap Framed.encode ++ cut).drop i) = some said) :
    ∃ before m after, ms = before ++ m :: after ∧ m.meaning = some said ∧
      i = (before.flatMap Framed.encode).length + 1 := by
  induction ms generalizing i with
  | nil =>
      rw [List.flatMap_nil, List.nil_append] at hread
      by_cases hi : i < cut.length
      · have hnone := hsilent i hi
        rw [List.append_nil, hread] at hnone
        cases hnone
      · rw [List.drop_eq_nil_of_le (by omega)] at hread
        cases hread
  | cons m ms ih =>
      rw [List.flatMap_cons, List.append_assoc] at hread
      by_cases hi : i < m.encode.length
      · rw [List.drop_append_of_le_length hi.le, Framed.messageAt_encode
          (hclean m List.mem_cons_self) (begins_flatMap ms hcut) hi] at hread
        split at hread
        next hone => exact ⟨[], m, ms, rfl, hread, hone⟩
        next => cases hread
      · obtain ⟨j, rfl⟩ := Nat.exists_eq_add_of_le (Nat.le_of_not_lt hi)
        rw [List.drop_length_add_append] at hread
        obtain ⟨before, m', after, rfl, hmeaning, rfl⟩ :=
          ih (fun m' hm' => hclean m' (List.mem_cons_of_mem m hm')) hread
        exact ⟨m :: before, m', after, rfl, hmeaning, by simp [Nat.add_assoc]⟩

/-- The fresh part of a report ends where the count says, or with the buffer. -/
theorem fresh_of_bytes {frame : Frame} {id count third : UInt8} {stream leftover : List UInt8}
    (hbytes : frame.bytes = id :: count :: third :: (stream ++ leftover))
    (hcount : stream.length = min count.toNat (msgSize - payloadOffset)) :
    fresh frame.bytes = stream := by
  have hsize := frame.size
  rw [hbytes] at hsize ⊢
  simp only [List.length_cons, List.length_append, msgSize, payloadOffset] at hsize hcount
  have hstop : min (3 + count.toNat) (stream.length + leftover.length + 1 + 1 + 1) =
      stream.length + 3 := by omega
  simp only [fresh, freshLenOffset, payloadOffset, List.getElem?_cons_succ, List.getElem?_cons_zero,
    Option.map_some, Option.getD_some, List.length_cons, List.length_append, hstop,
    List.take_succ_cons, List.drop_succ_cons, List.drop_zero]
  exact List.take_left

end Report

/-- The unanchored scan reads what the grammar says. Where the fresh part of a report
is a sequence of framed messages without a stray header, and the beginning of one
more at most, the messages read are what these messages say, in their order,
whatever is left over behind. Each is read at the type byte of its message. -/
theorem messages_eq_meanings (frame : Frame) (ms : List Framed) (next : Framed)
    (cut leftover : List UInt8) (id count third : UInt8)
    (hbytes : frame.bytes =
      id :: count :: third :: (ms.flatMap Framed.encode ++ cut ++ leftover))
    (hcount : (ms.flatMap Framed.encode ++ cut).length =
      min count.toNat (msgSize - payloadOffset))
    (hclean : ∀ m ∈ ms, Clean m.encode) (hcut : next.CutTo cut) (hnext : Clean cut) :
    messages frame.bytes = ms.filterMap Framed.meaning ∧
      ∀ i said, messageAt ((fresh frame.bytes).drop i) = some said →
        ∃ before m after, ms = before ++ m :: after ∧ m.meaning = some said ∧
          i = (before.flatMap Framed.encode).length + 1 := by
  have hfresh := fresh_of_bytes hbytes hcount
  have hsilent := hcut.silent hnext
  constructor
  · rw [messages, hfresh]
    simp only [filterMap_range_eq_scan]
    exact scan_messages hclean hcut.begins hsilent
  · intro i said hread
    rw [hfresh] at hread
    exact read_at_type hclean hcut.begins hsilent hread

/-- A headset is switched on, and the answer of an earlier exchange begins again at
the end of the fresh bytes, its value left over behind them. -/
theorem messages_eq_meanings_of_power_on :
    let acknowledged (code : List UInt8) (h : code.length = 3) : Framed :=
      ⟨0x5c, code, by omega⟩
    let linked : Framed := ⟨0x5d, [0xb1, 0x2c, 0x00, 0x02, 0x01, 0x01, 0x8d, 0x90, 0x9b, 0x67, 0x89,
      0xc2, 0x80, 0x01], by decide⟩
    let answer (level : UInt8) : Framed := ⟨0x5d, [0xd6, 0x0c, 0x00, 0x00, level], by simp⟩
    let said := [acknowledged [0x80, 0x2c, 0x01] rfl, linked, acknowledged [0x80, 0x2c, 0x03] rfl,
      answer 0x63]
    let cut : List UInt8 := [0x05, 0x5d, 0x05, 0x00, 0xd6, 0x0c, 0x00, 0x00]
    let leftover : List UInt8 := 0x5b :: List.replicate 9 0x00
    ∃ frame : Frame, frame.bytes =
        replyReportId :: 0x31 :: 0x00 :: (said.flatMap Framed.encode ++ cut ++ leftover) ∧
      messages frame.bytes = [.link true, .battery 99] := by
  intro acknowledged linked answer said cut leftover
  refine ⟨⟨replyReportId :: 0x31 :: 0x00 :: (said.flatMap Framed.encode ++ cut ++ leftover),
    by decide⟩, rfl, ?_⟩
  refine (messages_eq_meanings _ said (answer 0x5b) cut leftover replyReportId 0x31 0x00 rfl
    (by decide) (by decide) ⟨⟨[0x5b], rfl⟩, by decide, by decide⟩ (by decide)).1.trans ?_
  decide

end HeadsetBattery.Maxwell
