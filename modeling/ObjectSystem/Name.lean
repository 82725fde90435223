/-!
# Names and their spellings

Three rules about names are used all over the library.

* A property has one *canonical* spelling, in which every underscore is a hyphen; declarations are
  also searched under the *underscored* spelling.
* A signal may be named with a *detail*: `name::detail`, cut at the first double colon.
* An action may be named with a *qualifier*: `qualifier.name`, cut at the first dot.

Both cuts lose nothing: `splitDetail_join` and `splitQualifier_join` say that the parts, joined
again, are the text that was cut.
-/

namespace ObjectSystem.Name

/-! ### Spellings -/

/-- The hyphenated spelling of a name, the one that change notifications carry. -/
def canonical (name : String) : String :=
  name.map fun c => if c = '_' then '-' else c

/-- The spelling of a name in which every hyphen is an underscore. -/
def underscored (name : String) : String :=
  name.map fun c => if c = '-' then '_' else c

/-! ### Details and qualifiers -/

/-- Cuts a list of characters at its first double colon. -/
def cutDetail : List Char → List Char × Option (List Char)
  | [] => ([], none)
  | ':' :: ':' :: rest => ([], some rest)
  | c :: rest =>
    let (name, detail) := cutDetail rest
    (c :: name, detail)

/-- Cuts a list of characters at its first dot. -/
def cutQualifier : List Char → Option (List Char × List Char)
  | [] => none
  | '.' :: rest => some ([], rest)
  | c :: rest => (cutQualifier rest).map fun (qualifier, name) => (c :: qualifier, name)

/-- A signal name and the detail behind its first `::`, if there is one. -/
def splitDetail (text : String) : String × Option String :=
  let (name, detail) := cutDetail text.toList
  (String.ofList name, detail.map String.ofList)

/-- The parts of a name before and behind its first dot; nothing if it has none. -/
def splitQualifier (text : String) : Option (String × String) :=
  (cutQualifier text.toList).map fun (qualifier, name) =>
    (String.ofList qualifier, String.ofList name)

/-! ### The cuts lose nothing -/

theorem cutDetail_join (cs : List Char) :
    cs = (cutDetail cs).1 ++ ((cutDetail cs).2.elim [] fun detail => ':' :: ':' :: detail) := by
  fun_induction cutDetail cs with
  | case1 => rfl
  | case2 rest => rfl
  | case3 c rest _ name detail h ih => simpa [h] using ih

theorem cutQualifier_join {cs qualifier name : List Char}
    (h : cutQualifier cs = some (qualifier, name)) : cs = qualifier ++ '.' :: name := by
  fun_induction cutQualifier cs generalizing qualifier with
  | case1 => simp at h
  | case2 rest => simp_all
  | case3 c rest _ ih =>
    obtain ⟨⟨q, n⟩, hq, hp⟩ := Option.map_eq_some_iff.1 h
    simp only [Prod.mk.injEq] at hp
    obtain ⟨rfl, rfl⟩ := hp
    simp [ih hq]

/-- A signal name followed by its detail is the text that was split. -/
theorem splitDetail_join (text : String) :
    (splitDetail text).1 ++ ((splitDetail text).2.elim "" fun detail => "::" ++ detail) = text := by
  apply String.toList_injective
  rw [splitDetail]
  conv => rhs; rw [cutDetail_join text.toList]
  cases h : (cutDetail text.toList).2 <;> simp [h]

/-- A qualifier and a name, joined by a dot, are the text that was split. -/
theorem splitQualifier_join {text qualifier name : String}
    (h : splitQualifier text = some (qualifier, name)) : text = qualifier ++ "." ++ name := by
  obtain ⟨⟨q, n⟩, hq, hp⟩ := Option.map_eq_some_iff.1 h
  simp only [Prod.mk.injEq] at hp
  obtain ⟨rfl, rfl⟩ := hp
  apply String.toList_injective
  rw [cutQualifier_join hq]
  simp

end ObjectSystem.Name
