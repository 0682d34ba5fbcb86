import CyodaGo.Model.Match.Lifecycle
import Mathlib.Data.List.TakeWhile
import Mathlib.Algebra.Group.Nat.Defs

/-! # Texts that are written and read back

`%q` escapes for Go and `gjson` decodes JSON escapes. The two languages share most of their
escapes; where `%q` uses one of its own, the text that is read back ends. -/

namespace CyodaGo.Match

/-- Printable, or written with an escape that JSON has too: one of five letters, or `\u` and four
digits. -/
def legible (table : Char → Bool) (c : Char) : Bool :=
  isPrint table c || c.toNat ∈ [8, 9, 10, 12, 13] || (0x7F < c.toNat && c.toNat < 0x10000)

/-! ## Bytes -/

/-- A byte that stands for itself between the quotes. -/
def Plain (b : UInt8) : Prop := 0x20 ≤ b.toNat ∧ b ≠ quoteMark ∧ b ≠ backslash

theorem plain_ofNat {n : Nat} (hlo : 0x20 ≤ n) (hhi : n < 256) (hquote : n ≠ 34)
    (hslash : n ≠ 92) : Plain (UInt8.ofNat n) := by
  have hn : (UInt8.ofNat n).toNat = n := by simp [Nat.mod_eq_of_lt hhi]
  refine ⟨by omega, fun h => hquote ?_, fun h => hslash ?_⟩
  · rw [← hn, h]
    rfl
  · rw [← hn, h]
    rfl

theorem plain_utf8EncodeChar {table : Char → Bool} {c : Char} (h : isPrint table c = true)
    (hquote : c.toNat ≠ 34) (hslash : c.toNat ≠ 92) : ∀ b ∈ String.utf8EncodeChar c, Plain b := by
  have hprint : c.toNat ≤ 0x7F → 0x20 ≤ c.toNat := by
    intro hle
    rw [isPrint, if_pos (by omega)] at h
    simp only [Bool.or_eq_true, Bool.and_eq_true, decide_eq_true_eq] at h
    omega
  change c.val.toNat ≠ 34 at hquote
  change c.val.toNat ≠ 92 at hslash
  change c.val.toNat ≤ 0x7F → 0x20 ≤ c.val.toNat at hprint
  have hhigh {n : Nat} (hlo : 0x80 ≤ n) (hhi : n < 256) : Plain (UInt8.ofNat n) :=
    plain_ofNat (by omega) hhi (by omega) (by omega)
  intro b hb
  unfold String.utf8EncodeChar at hb
  simp only at hb
  split at hb
  · next hle =>
    rw [List.mem_singleton.mp hb]
    exact plain_ofNat (hprint hle) (by omega) hquote hslash
  · split at hb
    · simp only [List.mem_cons, List.not_mem_nil, or_false] at hb
      rcases hb with rfl | rfl <;> exact hhigh (by omega) (by omega)
    split at hb
    · simp only [List.mem_cons, List.not_mem_nil, or_false] at hb
      rcases hb with rfl | rfl | rfl <;> exact hhigh (by omega) (by omega)
    simp only [List.mem_cons, List.not_mem_nil, or_false] at hb
    rcases hb with rfl | rfl | rfl | rfl <;> exact hhigh (by omega) (by omega)

theorem plain_lowerhex : ∀ n < 16, Plain (lowerhex n) := by
  unfold Plain
  decide

theorem plain_hexDigits (count n : Nat) : ∀ b ∈ hexDigits count n, Plain b := by
  induction count generalizing n with
  | zero => simp [hexDigits]
  | succ count ih =>
    intro b hb
    rcases List.mem_append.mp hb with hb | hb
    · exact ih _ b hb
    rw [List.mem_singleton.mp hb]
    exact plain_lowerhex _ (Nat.mod_lt _ (by decide))

/-! ## What is read -/

/-- The short escapes of JSON. -/
def jsonEscape (e : UInt8) : Option UInt8 :=
  if e = 92 ∨ e = 47 ∨ e = 34 then some e
  else if e = 98 then some 8
  else if e = 102 then some 12
  else if e = 110 then some 10
  else if e = 114 then some 13
  else if e = 116 then some 9
  else none

/-- The bytes between the quotes of a string, and the text that is read. Reading ends at an escape
that JSON does not have. -/
inductive Reads : Bytes → Bytes → Prop
  | nil : Reads [] []
  | plain {b : UInt8} {body text : Bytes} (h : Plain b) (hrest : Reads body text) :
      Reads (b :: body) (b :: text)
  | letter {e b : UInt8} {body text : Bytes} (h : jsonEscape e = some b)
      (hrest : Reads body text) : Reads (backslash :: e :: body) (b :: text)
  | unicode {c : Char} {body text : Bytes} (h : c.toNat < 0x10000) (hrest : Reads body text) :
      Reads (backslash :: 117 :: (hexDigits 4 c.toNat ++ body)) (String.utf8EncodeChar c ++ text)
  | ends {e : UInt8} {body text : Bytes} (h : jsonEscape e = none) (hu : e ≠ 117)
      (hrest : Reads body text) : Reads (backslash :: e :: body) []

/-- How `gjson` reads the string of a document's only member. -/
def ReadsStrings (get : Bytes → Result) : Prop :=
  ∀ body text, Reads body text →
    get (opening ++ (quoteMark :: body ++ [quoteMark]) ++ [125]) = .string text

theorem reads_plain {bs : Bytes} (h : ∀ b ∈ bs, Plain b) {body text : Bytes}
    (hrest : Reads body text) : Reads (bs ++ body) (bs ++ text) := by
  induction bs with
  | nil => exact hrest
  | cons b bs ih => exact .plain (h b (by simp)) (ih fun x hx => h x (by simp [hx]))

/-! ## One character -/

/-- What is read of a character, before the text of the rest. -/
def readChar (table : Char → Bool) (c : Char) (text : Bytes) : Bytes :=
  if legible table c then String.utf8EncodeChar c ++ text else []

section Char

variable {table : Char → Bool} {c : Char} {body text : Bytes}

theorem reads_numericEscape (hprint : isPrint table c = false) (hletter : letterOf c.toNat = none)
    (hrest : Reads body text) :
    Reads (numericEscape c.toNat ++ body) (readChar table c text) := by
  have hshort : c.toNat ∉ [8, 9, 10, 12, 13] := by
    intro h
    simp only [List.mem_cons, List.not_mem_nil, or_false] at h
    rcases h with h | h | h | h | h <;> simp [h, letterOf] at hletter
  unfold numericEscape
  split
  · next hcontrol =>
    have hlegible : legible table c = false := by
      simp only [legible, hprint, hshort, decide_false, Bool.false_or, Bool.and_eq_false_iff,
        decide_eq_false_iff_not]
      omega
    rw [readChar, hlegible]
    exact .ends (by decide) (by decide) (reads_plain (plain_hexDigits 2 _) hrest)
  · next hcontrol =>
    split
    · next hbmp =>
      have hlegible : legible table c = true := by
        have hascii : ¬ c.toNat ≤ 0x7F := by
          intro hle
          rw [isPrint, if_pos (by omega)] at hprint
          simp only [Bool.or_eq_false_iff, Bool.and_eq_false_iff, decide_eq_false_iff_not] at hprint
          omega
        simp only [legible, Bool.or_eq_true, Bool.and_eq_true, decide_eq_true_eq]
        omega
      rw [readChar, hlegible]
      exact .unicode hbmp hrest
    · next hbmp =>
      have hlegible : legible table c = false := by
        simp only [legible, hprint, hshort, decide_false, Bool.false_or, Bool.and_eq_false_iff,
          decide_eq_false_iff_not]
        omega
      rw [readChar, hlegible]
      exact .ends (by decide) (by decide) (reads_plain (plain_hexDigits 8 _) hrest)

theorem char_eq_ofNat {n : Nat} (h : c.toNat = n) : c = Char.ofNat n := by
  rw [← h, Char.ofNat_toNat]

/-- Of the letters that stand for control characters, JSON does not know `a` and `v`. -/
theorem reads_letter {e : UInt8} (h : letterOf c.toNat = some e) (hrest : Reads body text) :
    Reads (backslash :: e :: body) (readChar table c text) := by
  have hread {n : Nat} (hn : c.toNat = n) (b : UInt8) (hb : jsonEscape e = some b)
      (henc : String.utf8EncodeChar (Char.ofNat n) = [b]) (hmem : n ∈ [8, 9, 10, 12, 13]) :
      Reads (backslash :: e :: body) (readChar table c text) := by
    have hlegible : legible table c = true := by simp [legible, hn, hmem]
    obtain rfl := char_eq_ofNat hn
    rw [readChar, hlegible, if_pos rfl, henc]
    exact .letter hb hrest
  have hends {n : Nat} (hn : c.toNat = n) (he : jsonEscape e = none) (hu : e ≠ 117)
      (hlegible : ∀ table, legible table (Char.ofNat n) = false) :
      Reads (backslash :: e :: body) (readChar table c text) := by
    obtain rfl := char_eq_ofNat hn
    rw [readChar, hlegible]
    exact .ends he hu hrest
  unfold letterOf at h
  split at h
  · next hn => cases h; exact hends hn (by decide) (by decide) fun _ => rfl
  · next hn => cases h; exact hread hn 8 (by decide) (by decide) (by decide)
  · next hn => cases h; exact hread hn 9 (by decide) (by decide) (by decide)
  · next hn => cases h; exact hread hn 10 (by decide) (by decide) (by decide)
  · next hn => cases h; exact hends hn (by decide) (by decide) fun _ => rfl
  · next hn => cases h; exact hread hn 12 (by decide) (by decide) (by decide)
  · next hn => cases h; exact hread hn 13 (by decide) (by decide) (by decide)
  · cases h

theorem reads_appendEscapedRune (hrest : Reads body text) :
    Reads (appendEscapedRune table c ++ body) (readChar table c text) := by
  unfold appendEscapedRune
  split
  · next h =>
    rcases h with h | h
    · obtain rfl := char_eq_ofNat h
      exact .letter (by decide) hrest
    obtain rfl := char_eq_ofNat h
    exact .letter (by decide) hrest
  · next hmark =>
    rw [not_or] at hmark
    cases hprint : isPrint table c with
    | true =>
      rw [if_pos rfl, readChar, legible, hprint]
      exact reads_plain (plain_utf8EncodeChar hprint hmark.1 hmark.2) hrest
    | false =>
      rw [if_neg (by simp)]
      cases hletter : letterOf c.toNat with
      | none => exact reads_numericEscape hprint hletter hrest
      | some e => exact reads_letter hletter hrest

end Char

/-! ## The text -/

/-- What is read back ends before the first character that is not legible. -/
theorem reads_quoted (table : Char → Bool) (s : List Char) :
    Reads (s.flatMap (appendEscapedRune table)) (utf8 (s.takeWhile (legible table))) := by
  induction s with
  | nil => exact .nil
  | cons c s ih =>
    have hread : Reads (appendEscapedRune table c ++ s.flatMap (appendEscapedRune table))
        (readChar table c (utf8 (s.takeWhile (legible table)))) := reads_appendEscapedRune ih
    rw [List.flatMap_cons]
    cases hc : legible table c with
    | false =>
      rw [List.takeWhile_cons_of_neg (by simp [hc])]
      rwa [readChar, hc] at hread
    | true =>
      rw [List.takeWhile_cons_of_pos hc]
      rwa [readChar, hc] at hread

/-- The value is a string, and its text is what could be read back. -/
theorem metaStringResult_eq {get : Bytes → Result} (hget : ReadsStrings get)
    (table : Char → Bool) (field : String) (m : EntityMeta) :
    metaStringResult get table field m =
      .string (utf8 ((m.text field).toList.takeWhile (legible table))) :=
  hget _ _ (reads_quoted table (m.text field).toList)

theorem utf8_takeWhile_eq_iff (p : Char → Bool) (s : List Char) :
    utf8 (s.takeWhile p) = utf8 s ↔ ∀ c ∈ s, p c = true := by
  constructor
  · intro h
    induction s with
    | nil => simp
    | cons c s ih =>
      cases hc : p c with
      | false =>
        rw [List.takeWhile_cons_of_neg (by simp [hc])] at h
        have hlength := congrArg List.length h
        have hpos := c.utf8Size_pos
        rw [utf8, utf8, List.flatMap_cons, List.length_append,
          String.length_utf8EncodeChar] at hlength
        simp at hlength
        omega
      | true =>
        rw [List.takeWhile_cons_of_pos hc] at h
        have htail : utf8 (s.takeWhile p) = utf8 s := by simpa [utf8] using h
        simpa [hc] using ih htail
  · intro h
    rw [List.takeWhile_eq_self_iff.mpr h]

/-- The text reaches the evaluator unchanged exactly when all its characters are legible, and
then every prepared condition on the field judges the stored text. -/
theorem meta_text_unchanged_iff {get : Bytes → Result} (hget : ReadsStrings get)
    (table : Char → Bool) (m : EntityMeta) (field : String) :
    (metaStringResult get table field m = .string (utf8 (m.text field).toList) ↔
      ∀ c ∈ (m.text field).toList, legible table c = true) ∧
    ((∀ c ∈ (m.text field).toList, legible table c = true) →
      ∀ (Op Value Exp : Type) (spi : LeafSpi Op Value Exp) (c : LifecycleCondition Op Value)
        (exp : Exp), prepareLifecycle spi c = .ok (.metaString field exp) →
        (PrepNode.metaString field exp).eval spi get table m =
          spi.evalLeaf exp (.string (utf8 (m.text field).toList))) := by
  have hiff : metaStringResult get table field m = .string (utf8 (m.text field).toList) ↔
      ∀ c ∈ (m.text field).toList, legible table c = true := by
    rw [metaStringResult_eq hget, Result.string.injEq, utf8_takeWhile_eq_iff]
  refine ⟨hiff, fun hlegible Op Value Exp spi c exp _ => ?_⟩
  rw [PrepNode.eval, hiff.mpr hlegible]

namespace Sample

def entity (state : String) : EntityMeta := ⟨state, "approve", "tx", "e"⟩

def hexValue (b : UInt8) : Nat := if b.toNat < 58 then b.toNat - 48 else b.toNat - 87

def decode : Bytes → Bytes
  | [] => []
  | c :: rest =>
    if c = backslash then
      match rest with
      | [] => []
      | e :: rest =>
        match jsonEscape e with
        | some b => b :: decode rest
        | none =>
          match rest with
          | h₁ :: h₂ :: h₃ :: h₄ :: rest =>
            if e = 117 then
              String.utf8EncodeChar (Char.ofNat ([h₁, h₂, h₃, h₄].foldl (16 * · + hexValue ·) 0)) ++
                decode rest
            else []
          | _ => []
    else c :: decode rest

def get (json : Bytes) : Result :=
  .string (decode ((json.drop (opening.length + 1)).dropLast.dropLast))

theorem hexValue_lowerhex : ∀ n < 16, hexValue (lowerhex n) = n := by decide

theorem foldl_hexDigits {n : Nat} (h : n < 0x10000) :
    (hexDigits 4 n).foldl (16 * · + hexValue ·) 0 = n := by
  have hdigit (k : Nat) : hexValue (lowerhex (k % 16)) = k % 16 :=
    hexValue_lowerhex _ (Nat.mod_lt _ (by decide))
  simp only [hexDigits, List.nil_append, List.cons_append, List.foldl_cons, List.foldl_nil, hdigit]
  omega

theorem decode_of_reads {body text : Bytes} (h : Reads body text) : decode body = text := by
  induction h with
  | nil => rfl
  | plain h _ ih =>
    rw [decode.eq_def]
    simp only [h.2.2, if_false, ih]
  | letter h _ ih =>
    rw [decode.eq_def]
    simp only [if_true, h, ih]
  | @unicode c body text h _ ih =>
    have hvalue := foldl_hexDigits h
    simp only [hexDigits, List.nil_append, List.cons_append] at hvalue ⊢
    have hu : jsonEscape 117 = none := by decide
    rw [decode.eq_def]
    simp only [if_true, hu, hvalue, ih, Char.ofNat_toNat]
  | ends h hu _ _ =>
    rw [decode.eq_def]
    simp only [if_true, h, hu, if_false]
    split <;> rfl

theorem readsStrings : ReadsStrings get := by
  intro body text h
  simp [get, opening, decode_of_reads h]

end Sample

/-- A line break and an accent are read back. -/
theorem meta_text_unchanged_line :
    metaStringResult Sample.get (fun _ => false) "state" (Sample.entity "né\n") =
      .string (utf8 "né\n".toList) :=
  (meta_text_unchanged_iff Sample.readsStrings (fun _ => false) (Sample.entity "né\n") "state").1.mpr
    (List.all_eq_true.mp (by decide))

/-- The state of the entity is `on` and a bell character; it is judged as `on`. -/
theorem bell_cut_off :
    (∀ get, ReadsStrings get → ∀ table,
      metaStringResult get table "state" (Sample.entity "on\x07") = .string (utf8 "on".toList)) ∧
    ReadsStrings Sample.get ∧ utf8 "on".toList ≠ utf8 "on\x07".toList :=
  ⟨fun _ hget table => metaStringResult_eq hget table "state" (Sample.entity "on\x07"),
    Sample.readsStrings, by decide⟩

end CyodaGo.Match
