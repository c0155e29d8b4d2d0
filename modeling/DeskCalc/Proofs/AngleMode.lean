import DeskCalc.Proofs.Text.Blank
import DeskCalc.Settings
import Mathlib.Data.List.Forall2
import Mathlib.Tactic.SplitIfs

/-!
# The Names of the Angle Modes

Which values from outside name an angle mode, said without the reader. Only texts do, those in which
there is one of a few words, perhaps with blanks around it. The letters of the word may be large or
small, each for itself. Besides the small letters of ASCII there are two more that are small forms
of such a letter, the dotless `i` and the long `s`.

## Main definitions

* `AngleMode.words`: The words for a mode.
* `AngleMode.Writes`: The ways to write a letter.
* `AngleMode.Names`: That a value names a mode.

## Theorems

* `AngleMode.ofPayload_eq_ok_iff`: The mode that is read from a value.
-/

namespace DeskCalc

namespace AngleMode

/-- The words for a mode. -/
def words : AngleMode → List String
  | .degrees => ["DEGREES", "DEG"]
  | .radians => ["RADIANS", "RAD"]

/-- That the first letter, which is a capital one, may be written as the second. -/
inductive Writes : Char → Char → Prop where
  /-- It may be written as it is. -/
  | large (c : Char) : Writes c c
  /-- The small letters have codes that are greater by thirty-two. -/
  | small {c d : Char} (h : d.toNat = c.toNat + 32) : Writes c d
  /-- The `i` may go without its dot. -/
  | dotless : Writes 'I' 'ı'
  /-- The `s` may be a long one. -/
  | long : Writes 'S' 'ſ'

/-- That a value names a mode. -/
inductive Names : Payload → AngleMode → Prop where
  /-- In the text there is one of the mode's words. -/
  | text {s word : String} {cs : List Char} {mode : AngleMode}
      (hstripped : Text.Stripped s.toList cs) (hword : word ∈ words mode)
      (hcs : List.Forall₂ Writes word.toList cs) : Names (.text s) mode

/-! ### Letters -/

/-- The characters whose capital letter is the given one. -/
theorem toUpper_eq_iff {c w : Char} (hleast : 65 ≤ w.toNat) (hmost : w.toNat ≤ 90) :
    c.toUpper = w ↔ c = w ∨ c.toNat = w.toNat + 32 := by
  unfold Char.toUpper
  split
  · next h =>
      have hfrom : 97 ≤ c.toNat := UInt32.le_iff_toNat_le.mp h.1
      have hto : c.toNat ≤ 122 := UInt32.le_iff_toNat_le.mp h.2
      have hback : (c.val + ('A'.val - 'a'.val)).toNat = c.toNat - 32 := by
        rw [UInt32.toNat_add]
        change (c.toNat + 4294967264) % 4294967296 = c.toNat - 32
        omega
      rw [← Char.toNat_inj]
      change (c.val + ('A'.val - 'a'.val)).toNat = w.toNat ↔ _
      rw [hback]
      constructor
      · exact fun hw => .inr (by omega)
      · rintro (rfl | hsmall) <;> omega
  · next h =>
      refine ⟨.inl, fun hc => hc.resolve_right fun hsmall => h ⟨?_, ?_⟩⟩
      · exact UInt32.le_iff_toNat_le.mpr (by change 97 ≤ c.toNat; omega)
      · exact UInt32.le_iff_toNat_le.mpr (by change c.toNat ≤ 122; omega)

/-- A character is read as a capital letter if the letter may be written like that. -/
theorem upper_eq_iff {c w : Char} (hleast : 65 ≤ w.toNat) (hmost : w.toNat ≤ 90) :
    upper c = w ↔ Writes w c := by
  constructor
  · intro h
    rw [upper] at h
    split_ifs at h with hdotless hlong
    · rw [hdotless, ← h]
      exact .dotless
    · rw [hlong, ← h]
      exact .long
    · rcases (toUpper_eq_iff hleast hmost).mp h with rfl | hsmall
      · exact .large c
      · exact .small hsmall
  · intro h
    have hascii : c.toNat ≤ 122 → upper c = c.toUpper := by
      intro hc
      rw [upper, if_neg, if_neg]
      · rintro rfl
        exact absurd hc (by decide)
      · rintro rfl
        exact absurd hc (by decide)
    cases h with
    | large =>
        rw [hascii (by omega)]
        exact (toUpper_eq_iff hleast hmost).mpr (.inl rfl)
    | small h =>
        rw [hascii (by omega)]
        exact (toUpper_eq_iff hleast hmost).mpr (.inr h)
    | dotless => rfl
    | long => rfl

/-- A text is read as a word of capital letters if the word may be written like that. -/
theorem map_upper_eq_iff {word : String} {cs : List Char}
    (hword : ∀ w ∈ word.toList, 65 ≤ w.toNat ∧ w.toNat ≤ 90) :
    String.ofList (cs.map upper) = word ↔ List.Forall₂ Writes word.toList cs := by
  rw [← String.toList_inj, String.toList_ofList]
  generalize word.toList = ws at *
  induction ws generalizing cs with
  | nil => rw [List.map_eq_nil_iff, List.forall₂_nil_left_iff]
  | cons w ws ih =>
      rcases List.forall_mem_cons.mp hword with ⟨⟨hleast, hmost⟩, hword⟩
      cases cs with
      | nil => simp only [List.map_nil, List.forall₂_nil_right_iff, reduceCtorEq]
      | cons c cs =>
          rw [List.map_cons, List.cons.injEq, List.forall₂_cons, upper_eq_iff hleast hmost,
            ih hword]

/-! ### Words -/

/-- The words consist of capital letters. -/
theorem capital_of_mem_words {mode : AngleMode} {word : String} (hword : word ∈ words mode) :
    ∀ w ∈ word.toList, 65 ≤ w.toNat ∧ w.toNat ≤ 90 := by
  have hall : word.toList.all (fun w => 65 ≤ w.toNat && w.toNat ≤ 90) = true := by
    revert word
    cases mode <;> decide
  intro w hw
  simpa only [Bool.and_eq_true, decide_eq_true_eq] using List.all_eq_true.mp hall w hw

theorem ofText?_eq_some_iff {s : String} {mode : AngleMode} :
    ofText? s = some mode ↔ String.ofList ((Text.stripChars s.toList).map upper) ∈ words mode := by
  rw [ofText?]
  generalize String.ofList ((Text.stripChars s.toList).map upper) = word
  constructor
  · intro h
    split_ifs at h with hdegrees hradians
    · obtain rfl := Option.some.inj h
      simpa only [words, List.mem_cons, List.not_mem_nil, or_false] using hdegrees
    · obtain rfl := Option.some.inj h
      simpa only [words, List.mem_cons, List.not_mem_nil, or_false] using hradians
  · intro h
    cases mode with
    | degrees =>
        simp only [words, List.mem_cons, List.not_mem_nil, or_false] at h
        rcases h with rfl | rfl <;> rfl
    | radians =>
        simp only [words, List.mem_cons, List.not_mem_nil, or_false] at h
        rcases h with rfl | rfl <;> rfl

/-- The mode that is read from a value is the one that it names. -/
theorem ofPayload_eq_ok_iff {p : Payload} {mode : AngleMode} :
    ofPayload p = .ok mode ↔ Names p mode := by
  constructor
  · intro h
    cases p with
    | text s =>
        rw [ofPayload] at h
        split at h
        · next m hread =>
            obtain rfl := Except.ok.inj h
            have hword := ofText?_eq_some_iff.mp hread
            exact .text (Text.stripped_iff.mpr rfl) hword
              ((map_upper_eq_iff (capital_of_mem_words hword)).mp rfl)
        · simp only [reduceCtorEq] at h
    | null | bool _ | int _ | float _ | list _ | object _ =>
        simp only [ofPayload, reduceCtorEq] at h
  · intro h
    cases h with
    | @text s word cs _ hstripped hword hcs =>
        have hupper := (map_upper_eq_iff (capital_of_mem_words hword)).mpr hcs
        have hread : ofText? s = some mode := by
          rwa [ofText?_eq_some_iff, hstripped.stripChars_eq, hupper]
        rw [ofPayload, hread]

end AngleMode

end DeskCalc
