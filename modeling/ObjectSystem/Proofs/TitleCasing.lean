import Mathlib.Data.List.Forall2
import ObjectSystem.Property.Resolve

/-!
# Title case is stable

On the characters below U+0080 title case is a transducer: it goes through a text once, remembers
whether it stands inside a word, and puts one character in the place of each
(`capitalizeWords_cons`). Which character that is, and whether the word goes on behind it, depends
neither on the case of the letters nor on which separator stands between the words. So *respelling*
a text changes nothing (`titleCase_congr`), and since title case is itself a respelling
(`respells_titleCase`), what is in title case stays as it is (`titleCase_stable`).
-/

namespace ObjectSystem

namespace Text

/-! ## Spellings -/

/-- The characters between the words of a name. -/
def separators : List Char := ['_', '-', ' ']

/-- One spelling of a character for another: one separator for another, or one case of a letter for
the other. -/
inductive Respelled (c : Char) : Char → Prop
  | kept : Respelled c c
  | separator {d : Char} (hc : c ∈ separators) (hd : d ∈ separators) : Respelled c d
  | letter {d : Char} (hc : c.isAlpha) (hd : d.isAlpha) (hcase : c.toLower = d.toLower) :
      Respelled c d

theorem respelled_iff {c d : Char} : Respelled c d ↔
    c = d ∨ (c ∈ separators ∧ d ∈ separators) ∨ c.isAlpha ∧ d.isAlpha ∧ c.toLower = d.toLower := by
  constructor
  · rintro (_ | ⟨hc, hd⟩ | ⟨hc, hd, hcase⟩)
    · exact .inl rfl
    · exact .inr (.inl ⟨hc, hd⟩)
    · exact .inr (.inr ⟨hc, hd, hcase⟩)
  · rintro (rfl | ⟨hc, hd⟩ | ⟨hc, hd, hcase⟩)
    · exact .kept
    · exact .separator hc hd
    · exact .letter hc hd hcase

instance : DecidableRel Respelled := fun _ _ => decidable_of_iff' _ respelled_iff

/-- What holds of the characters below U+0080 one by one holds of each. -/
@[elab_as_elim]
theorem forall_ascii {P : Char → Prop} {c : Char} (hc : c.toNat < 128)
    (h : ∀ n < 128, P (Char.ofNat n)) : P c := by
  have := h c.toNat hc
  rwa [Char.ofNat_toNat] at this

theorem separatorToBlank_of_mem {c : Char} (hc : c ∈ separators) : separatorToBlank c = ' ' := by
  simp only [separators, List.mem_cons, List.not_mem_nil, or_false] at hc
  obtain rfl | rfl | rfl := hc <;> rfl

theorem separatorToBlank_of_ne {c : Char} (hlow : c ≠ '_') (hmid : c ≠ '-') :
    separatorToBlank c = c :=
  if_neg (not_or.mpr ⟨hlow, hmid⟩)

theorem separatorToBlank_of_isAlpha {c : Char} (hc : c.isAlpha) : separatorToBlank c = c := by
  refine separatorToBlank_of_ne ?_ ?_ <;> rintro rfl <;> exact absurd hc (by decide)

theorem separatorToBlank_lt {c : Char} (hc : c.toNat < 128) : (separatorToBlank c).toNat < 128 := by
  unfold separatorToBlank
  split
  · decide
  · exact hc

/-- Spellings of one character are the same small character between blanks. -/
theorem Respelled.folded {c d : Char} (h : Respelled c d) :
    (separatorToBlank c).toLower = (separatorToBlank d).toLower := by
  cases h with
  | kept => rfl
  | separator hc hd => rw [separatorToBlank_of_mem hc, separatorToBlank_of_mem hd]
  | letter hc hd hcase =>
    rw [separatorToBlank_of_isAlpha hc, separatorToBlank_of_isAlpha hd, hcase]

theorem Respelled.blank (c : Char) : Respelled c (separatorToBlank c) := by
  unfold separatorToBlank
  split
  · next h => exact .separator (by obtain rfl | rfl := h <;> decide) (by decide)
  · exact .kept

theorem separators_lt {c : Char} (hc : c ∈ separators) : c.toNat < 128 := by
  simp only [separators, List.mem_cons, List.not_mem_nil, or_false] at hc
  obtain rfl | rfl | rfl := hc <;> decide

theorem isAlpha_lt {c : Char} (hc : c.isAlpha) : c.toNat < 128 := by
  have hcase : c.isUpper ∨ c.isLower := (Bool.or_eq_true _ _).mp hc
  rcases hcase with hupper | hlower
  · have h : c.val ≤ 'Z'.val := (of_decide_eq_true hupper).2
    exact Nat.lt_of_le_of_lt (UInt32.le_iff_toNat_le.mp h) (by decide)
  · have h : c.val ≤ 'z'.val := of_decide_eq_true (Bool.and_eq_true_iff.mp hlower).2
    exact Nat.lt_of_le_of_lt (UInt32.le_iff_toNat_le.mp h) (by decide)

theorem not_isAlpha_of_mem {c : Char} (hc : c ∈ separators) : ¬ c.isAlpha := by
  simp only [separators, List.mem_cons, List.not_mem_nil, or_false] at hc
  obtain rfl | rfl | rfl := hc <;> decide

theorem Respelled.lt {c d : Char} (h : Respelled c d) (hc : c.toNat < 128) : d.toNat < 128 := by
  cases h with
  | kept => exact hc
  | separator _ hd => exact separators_lt hd
  | letter _ hd _ => exact isAlpha_lt hd

theorem Respelled.trans {c d e : Char} (h : Respelled c d) (h' : Respelled d e) :
    Respelled c e := by
  cases h with
  | kept => exact h'
  | separator hc hd =>
    cases h' with
    | kept => exact .separator hc hd
    | separator _ he => exact .separator hc he
    | letter hd' _ _ => exact absurd hd' (not_isAlpha_of_mem hd)
  | letter hc hd hcase =>
    cases h' with
    | kept => exact .letter hc hd hcase
    | separator hd' _ => exact absurd hd (not_isAlpha_of_mem hd')
    | letter _ he hcase' => exact .letter hc he (hcase.trans hcase')

/-! ## Title case, one character after the other -/

/-- The character in the case that title case gives it: small inside a word, else a capital. -/
def cased (inWord : Bool) (c : Char) : Char :=
  if inWord then c.toLower else c.toUpper

/-- Whether the text stands inside a word behind the character. -/
def wordGoesOn (inWord : Bool) (c : Char) : Bool :=
  if inWord then !isSpace c else isWordCharacter c

section Ascii

variable {inWord : Bool} {c : Char} (hc : c.toNat < 128)

include hc

/-- How the two cases of a character are related. All characters are gone through at once. -/
theorem cases_ascii :
    c.toLower.toNat < 128 ∧ (isSpace c = true → c.toLower = c) ∧
      (isWordCharacter c = false → c.toUpper = c) ∧
      ∀ inWord, cased inWord c.toLower = cased inWord c ∧
        wordGoesOn inWord c.toLower = wordGoesOn inWord c ∧
        (¬ c.isAlpha → cased inWord c = c) ∧
        (c.isAlpha → (cased inWord c).isAlpha ∧ c.toLower = (cased inWord c).toLower) := by
  refine forall_ascii hc ?_
  decide +kernel

theorem toLower_lt : c.toLower.toNat < 128 :=
  (cases_ascii hc).1

theorem toLower_of_isSpace (hspace : isSpace c = true) : c.toLower = c :=
  (cases_ascii hc).2.1 hspace

theorem toUpper_of_not_isWordCharacter (hword : isWordCharacter c = false) : c.toUpper = c :=
  (cases_ascii hc).2.2.1 hword

theorem cased_toLower : cased inWord c.toLower = cased inWord c :=
  ((cases_ascii hc).2.2.2 inWord).1

theorem wordGoesOn_toLower : wordGoesOn inWord c.toLower = wordGoesOn inWord c :=
  ((cases_ascii hc).2.2.2 inWord).2.1

/-- Only letters have two cases. -/
theorem cased_of_not_isAlpha (hletter : ¬ c.isAlpha) : cased inWord c = c :=
  ((cases_ascii hc).2.2.2 inWord).2.2.1 hletter

/-- A character in one case or the other is spelled in a different way at most. -/
theorem respelled_cased : Respelled c (cased inWord c) := by
  obtain ⟨-, -, hkept, hcase⟩ := (cases_ascii hc).2.2.2 inWord
  by_cases hletter : c.isAlpha
  · exact .letter hletter (hcase hletter).1 (hcase hletter).2
  · rw [hkept hletter]
    exact .kept

/-- **Title case is a transducer** on the characters below U+0080. -/
theorem capitalizeWords_cons (rest : List Char) :
    capitalizeWords inWord (c :: rest) =
      cased inWord c :: capitalizeWords (wordGoesOn inWord c) rest := by
  rw [capitalizeWords, cased, wordGoesOn, upper, lower, if_pos hc, if_pos hc]
  cases inWord with
  | true =>
    cases hspace : isSpace c with
    | true => simp [toLower_of_isSpace hc hspace]
    | false => simp
  | false =>
    cases hword : isWordCharacter c with
    | true => simp
    | false => simp [toUpper_of_not_isWordCharacter hc hword]

end Ascii

/-- The case of the letters does not matter. -/
theorem capitalizeWords_map_toLower {l : List Char} (hl : ∀ c ∈ l, c.toNat < 128)
    (inWord : Bool) :
    capitalizeWords inWord (l.map Char.toLower) = capitalizeWords inWord l := by
  induction l generalizing inWord with
  | nil => rfl
  | cons c rest ih =>
    obtain ⟨hc, hrest⟩ := List.forall_mem_cons.mp hl
    rw [List.map_cons, capitalizeWords_cons (toLower_lt hc), capitalizeWords_cons hc,
      cased_toLower hc, wordGoesOn_toLower hc, ih hrest]

/-- Each character is spelled in a different way at most. -/
theorem respelled_capitalizeWords {l : List Char} (hl : ∀ c ∈ l, c.toNat < 128) (inWord : Bool) :
    List.Forall₂ Respelled l (capitalizeWords inWord (l.map separatorToBlank)) := by
  induction l generalizing inWord with
  | nil => exact .nil
  | cons c rest ih =>
    obtain ⟨hc, hrest⟩ := List.forall_mem_cons.mp hl
    have hblank := separatorToBlank_lt hc
    rw [List.map_cons, capitalizeWords_cons hblank]
    exact .cons ((Respelled.blank c).trans (respelled_cased hblank)) (ih hrest _)

/-- In the place of each character stands that character in one case or the other. -/
theorem getElem?_capitalizeWords {l : List Char} (hl : ∀ c ∈ l, c.toNat < 128) (inWord : Bool)
    (i : Nat) : ∃ inWord', (capitalizeWords inWord l)[i]? = l[i]?.map (cased inWord') := by
  induction l generalizing inWord i with
  | nil => exact ⟨inWord, rfl⟩
  | cons c rest ih =>
    obtain ⟨hc, hrest⟩ := List.forall_mem_cons.mp hl
    rw [capitalizeWords_cons hc]
    cases i with
    | zero => exact ⟨inWord, rfl⟩
    | succ i => exact ih hrest _ i

/-! ## Title case of a text -/

/-- The text has only characters below U+0080. -/
def IsAscii (s : String) : Prop := ∀ c ∈ s.toList, c.toNat < 128

instance (s : String) : Decidable (IsAscii s) :=
  List.decidableBAll (fun c : Char => c.toNat < 128) s.toList

/-- The texts differ in the spelling of their characters only. -/
def Respells (s t : String) : Prop := List.Forall₂ Respelled s.toList t.toList

instance (s t : String) : Decidable (Respells s t) :=
  inferInstanceAs (Decidable (List.Forall₂ Respelled s.toList t.toList))

theorem respells_titleCase {s : String} (hs : IsAscii s) : Respells s (titleCase s) := by
  rw [Respells, titleCase, String.toList_ofList]
  exact respelled_capitalizeWords hs false

theorem Respells.isAscii {s t : String} (h : Respells s t) (hs : IsAscii s) : IsAscii t := by
  unfold Respells IsAscii at *
  generalize s.toList = l, t.toList = k at *
  induction h with
  | nil => exact hs
  | cons hcd _ ih =>
    obtain ⟨hc, hrest⟩ := List.forall_mem_cons.mp hs
    exact List.forall_mem_cons.mpr ⟨hcd.lt hc, ih hrest⟩

/-- Once separators are blanks and letters are small, spellings of a text are the same. -/
theorem Respells.folded {s t : String} (h : Respells s t) :
    (s.toList.map separatorToBlank).map Char.toLower =
      (t.toList.map separatorToBlank).map Char.toLower := by
  rw [List.map_map, List.map_map, ← List.forall₂_eq_eq_eq, List.forall₂_map_left_iff,
    List.forall₂_map_right_iff]
  exact h.imp fun _ _ => Respelled.folded

theorem isAscii_blanks {s : String} (hs : IsAscii s) :
    ∀ c ∈ s.toList.map separatorToBlank, c.toNat < 128 := by
  intro c hc
  obtain ⟨d, hd, rfl⟩ := List.mem_map.mp hc
  exact separatorToBlank_lt (hs d hd)

/-- Title case does not depend on the spelling. -/
theorem titleCase_congr {s t : String} (hs : IsAscii s) (h : Respells s t) :
    titleCase t = titleCase s := by
  have ht := h.isAscii hs
  rw [titleCase, titleCase, ← capitalizeWords_map_toLower (isAscii_blanks hs),
    ← capitalizeWords_map_toLower (isAscii_blanks ht), h.folded]

/-- What is in title case stays as it is. -/
theorem titleCase_titleCase {s : String} (hs : IsAscii s) : titleCase (titleCase s) = titleCase s :=
  titleCase_congr hs (respells_titleCase hs)

/-- Beyond U+0080 a capital may take two letters, and the second is not a capital for long. -/
example : titleCase "ß" = "SS" ∧ titleCase "SS" = "Ss" := by decide +kernel

theorem length_titleCase {s : String} (hs : IsAscii s) : (titleCase s).length = s.length := by
  rw [← String.length_toList, ← String.length_toList, (respells_titleCase hs).length_eq]

/-- Only letters and separators are touched. -/
theorem getElem?_titleCase {s : String} (hs : IsAscii s) {i : Nat} {c : Char}
    (hi : s.toList[i]? = some c) (hletter : ¬ c.isAlpha) (hlow : c ≠ '_') (hmid : c ≠ '-') :
    (titleCase s).toList[i]? = some c := by
  have hblanks : (s.toList.map separatorToBlank)[i]? = some c := by
    rw [List.getElem?_map, hi, Option.map_some, separatorToBlank_of_ne hlow hmid]
  obtain ⟨inWord, hcased⟩ := getElem?_capitalizeWords (isAscii_blanks hs) false i
  rw [titleCase, String.toList_ofList, hcased, hblanks, Option.map_some,
    cased_of_not_isAlpha (hs c (List.mem_of_getElem? hi)) hletter]

end Text

/-! ## Nicks -/

theorem Property.label_renick {name : String} {options : PropertyOptions}
    (hs : Text.IsAscii (options.nick.getD name)) :
    label name { options with nick := some (label name options).nick } = label name options := by
  simp only [label, Option.getD_some, Text.titleCase_titleCase hs]

/-- A nick that was derived once may be supplied in its place. -/
theorem Property.resolve_renick {name : String} {options : PropertyOptions}
    (hs : Text.IsAscii (options.nick.getD name)) (r : Registry) (tag : TypeTag) :
    resolve r name tag { options with nick := some (label name options).nick } =
      resolve r name tag options := by
  unfold resolve
  rw [label_renick hs]
  rfl

/-- **Title case is stable.** On texts whose characters lie below U+0080 it is idempotent, gives the
same for every spelling of a text, and touches nothing but letters and separators. So the nick of a
property that was derived once may be supplied in the place of what it was derived from. -/
theorem titleCase_stable (s : String) (hs : Text.IsAscii s) :
    Text.titleCase (Text.titleCase s) = Text.titleCase s ∧
    (∀ t, Text.Respells s t → Text.titleCase t = Text.titleCase s) ∧
    (Text.titleCase s).length = s.length ∧
    (∀ (i : Nat) (c : Char), s.toList[i]? = some c → ¬ c.isAlpha → c ≠ '_' → c ≠ '-' →
      (Text.titleCase s).toList[i]? = some c) ∧
    ∀ (r : Registry) (name : String) (tag : TypeTag) (options : PropertyOptions),
      options.nick.getD name = s →
      Property.resolve r name tag
          { options with nick := some (Property.label name options).nick } =
        Property.resolve r name tag options := by
  refine ⟨Text.titleCase_titleCase hs, fun t => Text.titleCase_congr hs,
    Text.length_titleCase hs, fun i c => Text.getElem?_titleCase hs, ?_⟩
  rintro r name tag options rfl
  exact Property.resolve_renick hs r tag

/-- The name *max-retry_COUNT* in another spelling. -/
theorem titleCase_stable_retries : Text.IsAscii "max-retry_COUNT" ∧
    Text.titleCase "max-retry_COUNT" = "Max Retry Count" ∧
    Text.titleCase "MAX_Retry count" = "Max Retry Count" := by
  have hname : Text.IsAscii "max-retry_COUNT" := by decide +kernel
  have hspelled : Text.Respells "max-retry_COUNT" "MAX_Retry count" := by decide +kernel
  have htitle : Text.titleCase "max-retry_COUNT" = "Max Retry Count" := by decide +kernel
  obtain ⟨-, hcongr, -⟩ := titleCase_stable "max-retry_COUNT" hname
  exact ⟨hname, htitle, (hcongr _ hspelled).trans htitle⟩

end ObjectSystem
