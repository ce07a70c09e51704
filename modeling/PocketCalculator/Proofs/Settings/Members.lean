import Mathlib.Data.List.Forall2
import PocketCalculator.Proofs.Json.Reader
import PocketCalculator.Settings.Json

/-!
# Settings depend on the members given

What is loaded from an object depends on the members with the names of settings only, and not on
their order (`ofMembers?_congr`); a setting that is not given has its default value
(`ofMembers?_cons_default`). Since a text is read just if it is written as the grammar says, all
texts of an object are loaded alike, with any spaces between tokens and any escapes in names
(`ofJson_of_isObjectText`). Together these say what a settings text depends on (`ofJson_fields`).
-/

namespace PocketCalculator.Settings
open Json

/-- What is loaded if given settings have been read. -/
def loaded : Option Settings → Except LoadError Settings
  | none => .error .unreadable
  | some s => match s.fault? with
    | some fault => .error (.invalid fault)
    | none => .ok s

theorem loaded_eq_invalid_iff {settings : Option Settings} {fault : Fault} :
    loaded settings = .error (.invalid fault) ↔ ∃ s, settings = some s ∧ s.fault? = some fault := by
  cases settings with
  | none => simp [loaded]
  | some s => cases h : s.fault? <;> simp [loaded, h]

/-- A text is that of an object, written as the grammar says, and its members have given names and
values. -/
def IsObjectText (text : String) (fields : List (List Char × Value)) : Prop :=
  ∃ members : List (Text × Value), Written (Value.object members).tokens text.toList ∧
    List.Forall₂ (fun m f => Text.chars? m.1 = some f.1 ∧ m.2 = f.2) members fields

/-- Whether a member has the name of a setting. -/
def isKnown (field : List Char × Value) : Bool :=
  names.any fun name => field.1 == name.toList

/-- A value stands for the default value of the setting with a given name. -/
inductive IsDefault : List Char → Value → Prop where
  | errorText {t : Text} (h : Text.chars? t = some "Error".toList) :
    IsDefault errorTextName.toList (.text t)
  | multiplyGlyph {t : Text} (h : Text.chars? t = some ['x']) :
    IsDefault GlyphField.multiply.name.toList (.text t)
  | divideGlyph {t : Text} (h : Text.chars? t = some ['÷']) :
    IsDefault GlyphField.divide.name.toList (.text t)
  | inputLimit : IsDefault inputLimitName.toList (.number ['0'])

theorem IsDefault.isKnown {cs : List Char} {v : Value} (h : IsDefault cs v) :
    isKnown (cs, v) = true := by
  cases h <;> rfl

variable {α : Type} {fields fields' : List (List Char × Value)} {name : String} {default : α}
  {read : Value → Option α} {v : Value} {text : String}

/-! ## One member -/

/-- A member is read from the members with its name, and their order does not matter. -/
theorem member?_congr
    (h : (fields.filter fun f => f.1 == name.toList).Perm
      (fields'.filter fun f => f.1 == name.toList)) :
    member? fields name default read = member? fields' name default read := by
  unfold member?
  generalize fields.filter (fun f => f.1 == name.toList) = l at h
  generalize fields'.filter (fun f => f.1 == name.toList) = l' at h
  match l, l' with
  | [], _ => rw [List.nil_perm.1 h]
  | [m], _ => rw [List.singleton_perm.1 h]
  | _ :: _ :: _, [] | _ :: _ :: _, [_] => cases h.length_eq
  | _ :: _ :: _, _ :: _ :: _ => rfl

theorem filter_of_ne {cs : List Char} (h : ∀ f ∈ fields, f.1 ≠ cs) :
    fields.filter (fun f => f.1 == cs) = [] := by
  simpa using fun a b hf => h (a, b) hf

theorem member?_cons_of_ne {cs : List Char} (h : cs ≠ name.toList) :
    member? ((cs, v) :: fields) name default read = member? fields name default read := by
  rw [member?, List.filter_cons_of_neg (by simpa using h)]
  rfl

/-- A member that is left out is read as its default value. -/
theorem member?_cons_default (h : ∀ f ∈ fields, f.1 ≠ name.toList) (hread : read v = some default) :
    member? ((name.toList, v) :: fields) name default read = member? fields name default read := by
  rw [member?, member?, List.filter_cons_of_pos (by simp), filter_of_ne h]
  exact hread

/-! ## All members -/

theorem filter_isKnown (hname : name ∈ names) (fields : List (List Char × Value)) :
    (fields.filter isKnown).filter (fun f => f.1 == name.toList) =
      fields.filter fun f => f.1 == name.toList := by
  rw [List.filter_filter]
  refine List.filter_congr fun f _ => ?_
  cases hf : f.1 == name.toList with
  | false => rfl
  | true => exact List.any_eq_true.2 ⟨name, hname, hf⟩

/-- Members with other names, and the order of members, do not matter. -/
theorem ofMembers?_congr (h : (fields.filter isKnown).Perm (fields'.filter isKnown)) :
    ofMembers? fields = ofMembers? fields' := by
  have hmember {α : Type} {name : String} (hname : name ∈ names) (default : α)
      (read : Value → Option α) :
      member? fields name default read = member? fields' name default read := by
    refine member?_congr ?_
    have hfilter := h.filter fun f => f.1 == name.toList
    rwa [filter_isKnown hname, filter_isKnown hname] at hfilter
  rw [ofMembers?, ofMembers?, hmember (by decide), hmember (by decide), hmember (by decide),
    hmember (by decide)]

/-- Leaving out a setting is giving its default value. -/
theorem ofMembers?_cons_default {cs : List Char} (h : IsDefault cs v)
    (hfields : ∀ f ∈ fields, f.1 ≠ cs) : ofMembers? ((cs, v) :: fields) = ofMembers? fields := by
  rw [ofMembers?, ofMembers?]
  cases h with
  | errorText h =>
    rw [member?_cons_default hfields (by rw [chars?, h]; rfl), member?_cons_of_ne (by decide),
      member?_cons_of_ne (by decide), member?_cons_of_ne (by decide)]
  | multiplyGlyph h =>
    rw [member?_cons_of_ne (by decide), member?_cons_default hfields (by rw [glyph?, chars?, h]),
      member?_cons_of_ne (by decide), member?_cons_of_ne (by decide)]
  | divideGlyph h =>
    rw [member?_cons_of_ne (by decide), member?_cons_of_ne (by decide),
      member?_cons_default hfields (by rw [glyph?, chars?, h]), member?_cons_of_ne (by decide)]
  | inputLimit =>
    rw [member?_cons_of_ne (by decide), member?_cons_of_ne (by decide),
      member?_cons_of_ne (by decide), member?_cons_default hfields (by decide)]

/-! ## Texts -/

theorem ofJson_eq (text : String) : ofJson text = loaded ((read? text.toList).bind ofValue?) := by
  unfold ofJson loaded
  cases (read? text.toList).bind ofValue? <;> rfl

theorem ofJson_of_written (h : Written v.tokens text.toList) :
    ofJson text = loaded (ofValue? v) := by
  rw [ofJson_eq, read?_eq_some_iff.2 h, Option.bind_some]

theorem ofValue?_object {members : List (Text × Value)}
    (h : List.Forall₂ (fun m f => Text.chars? m.1 = some f.1 ∧ m.2 = f.2) members fields) :
    ofValue? (.object members) = ofMembers? fields := by
  have hfields : members.mapM (fun m => do some (← Text.chars? m.1, m.2)) = some fields := by
    induction h with
    | nil => rfl
    | cons hm _ ih =>
      obtain ⟨hname, hvalue⟩ := hm
      rw [List.mapM_cons, hname, ih, hvalue]
      rfl
  exact congrArg (· >>= ofMembers?) hfields

theorem ofJson_of_isObjectText (h : IsObjectText text fields) :
    ofJson text = loaded (ofMembers? fields) := by
  obtain ⟨members, hwritten, hfields⟩ := h
  rw [ofJson_of_written hwritten, ofValue?_object hfields]

theorem ofJson_eq_invalid_iff {fault : Fault} :
    ofJson text = .error (.invalid fault) ↔
      ∃ v s, Written v.tokens text.toList ∧ ofValue? v = some s ∧ s.fault? = some fault := by
  rw [ofJson_eq, loaded_eq_invalid_iff]
  simp only [Option.bind_eq_some_iff, read?_eq_some_iff]
  constructor
  · rintro ⟨s, ⟨v, hwritten, hvalue⟩, hfault⟩
    exact ⟨v, s, hwritten, hvalue, hfault⟩
  · rintro ⟨v, s, hwritten, hvalue, hfault⟩
    exact ⟨s, ⟨v, hwritten, hvalue⟩, hfault⟩

/-- What is loaded depends on the fields given only. Texts of objects with the same members under
the names of settings are loaded alike, whatever the other members are, in whatever order they
stand, however names are escaped, and whatever spaces are between tokens; a setting that is left out
has its default value, and an object without settings is loaded as the default settings; an array
stands for the object with its items under the first names; and settings are found to be invalid
just if they have been read from the whole text. -/
theorem ofJson_fields :
    (∀ text text' fields fields', IsObjectText text fields → IsObjectText text' fields' →
      (fields.filter isKnown).Perm (fields'.filter isKnown) → ofJson text = ofJson text') ∧
    (∀ text text' fields fields' cs v, IsObjectText text fields → IsObjectText text' fields' →
      IsDefault cs v → (∀ f ∈ fields, f.1 ≠ cs) →
      (fields'.filter isKnown).Perm ((cs, v) :: fields.filter isKnown) →
      ofJson text = ofJson text') ∧
    (∀ text fields, IsObjectText text fields → (∀ f ∈ fields, isKnown f = false) →
      ofJson text = .ok {}) ∧
    (∀ text text' items, Written (Value.array items).tokens text.toList →
      items.length ≤ names.length →
      IsObjectText text' ((names.map String.toList).zip items) → ofJson text = ofJson text') ∧
    ∀ text fault, ofJson text = .error (.invalid fault) ↔
      ∃ v s, Written v.tokens text.toList ∧ ofValue? v = some s ∧ s.fault? = some fault := by
  refine ⟨?same, ?default, ?none, ?array, fun _ _ => ofJson_eq_invalid_iff⟩
  case same =>
    intro text text' fields fields' h h' hperm
    rw [ofJson_of_isObjectText h, ofJson_of_isObjectText h', ofMembers?_congr hperm]
  case default =>
    intro text text' fields fields' cs v h h' hdefault hfields hperm
    rw [← List.filter_cons_of_pos (p := isKnown) hdefault.isKnown] at hperm
    rw [ofJson_of_isObjectText h, ofJson_of_isObjectText h', ofMembers?_congr hperm,
      ofMembers?_cons_default hdefault hfields]
  case none =>
    intro text fields h hfields
    have hnone : fields.filter isKnown = [].filter isKnown := by simpa using hfields
    rw [ofJson_of_isObjectText h, ofMembers?_congr (.of_eq hnone)]
    decide
  case array =>
    intro text text' items h hlen h'
    rw [ofJson_of_written h, ofJson_of_isObjectText h', ofValue?, if_pos hlen]

theorem ofJson_fields_divide :
    let text := "\x7b\"divide_glyph\": \":\"\x7d"
    let spaced :=
      "\x7b\"a\":[\x7b\"b\":-1E+9\x7d,null],\n\"divide\\u005fglyph\" :\t\":\"\x7d "
    let full := "\x7b\"divide_glyph\":\":\",\"multiply_glyph\":\"x\"\x7d"
    let array := "[\"?\", \"+\"]"
    let object := "\x7b\"error_text\":\"?\",\"multiply_glyph\":\"+\"\x7d"
    ofJson text = ofJson spaced ∧ ofJson text = ofJson full ∧ ofJson array = ofJson object ∧
      ofJson array = .error (.invalid (.reservedGlyph .multiply '+')) := by
  intro text spaced full array object
  let key : String → Text := fun name => name.toList.map Text.part
  let colon : List Char × Value := (GlyphField.divide.name.toList, .text [.char ':'])
  let escaped : Text := "divide".toList.map Text.part ++ .unit 0x5F :: "glyph".toList.map Text.part
  let extra : Value := .array [.object [(key "b", .number "-1E+9".toList)], .null]
  have htext : IsObjectText text [colon] :=
    ⟨[(key GlyphField.divide.name, colon.2)], written_of_tokens? (by decide +kernel),
      .cons ⟨rfl, rfl⟩ .nil⟩
  have hspaced : IsObjectText spaced [(['a'], extra), colon] :=
    ⟨[(key "a", extra), (escaped, colon.2)], written_of_tokens? (by decide +kernel),
      .cons ⟨rfl, rfl⟩ (.cons ⟨rfl, rfl⟩ .nil)⟩
  have hfull : IsObjectText full
      [colon, (GlyphField.multiply.name.toList, .text [.char 'x'])] :=
    ⟨[(key GlyphField.divide.name, colon.2), (key GlyphField.multiply.name, .text [.char 'x'])],
      written_of_tokens? (by decide +kernel), .cons ⟨rfl, rfl⟩ (.cons ⟨rfl, rfl⟩ .nil)⟩
  have harray : Written (Value.array [.text [.char '?'], .text [.char '+']]).tokens array.toList :=
    written_of_tokens? (by decide +kernel)
  have hobject : IsObjectText object
      ((names.map String.toList).zip [.text [.char '?'], .text [.char '+']]) :=
    ⟨[(key errorTextName, .text [.char '?']), (key GlyphField.multiply.name, .text [.char '+'])],
      written_of_tokens? (by decide +kernel), .cons ⟨rfl, rfl⟩ (.cons ⟨rfl, rfl⟩ .nil)⟩
  obtain ⟨hsame, hdefault, -, hitems, hinvalid⟩ := ofJson_fields
  refine ⟨hsame _ _ _ _ htext hspaced (.refl _), ?_, hitems _ _ _ harray (by decide) hobject, ?_⟩
  · exact hdefault _ _ _ _ _ _ htext hfull (.multiplyGlyph rfl)
      (List.forall_mem_singleton.2 (by decide)) (.swap _ _ _)
  · exact (hinvalid _ _).2 ⟨_, _, harray, rfl, rfl⟩

end PocketCalculator.Settings
