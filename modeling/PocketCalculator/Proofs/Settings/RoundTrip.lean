import PocketCalculator.Settings.Json
import PocketCalculator.Proofs.Json.Lexer
import PocketCalculator.Proofs.Json.Reader

/-!
# Settings are read back

`toValue` is the value that settings are written as: the settings text has its tokens
(`tokens?_toJson`), and it denotes the settings again (`ofValue?_toValue`). So a settings text of
any settings can be read, and what is loaded from it depends only on whether the settings have a
fault (`ofJson_toJson`).
-/

namespace PocketCalculator.Settings

open Json

/-- The value that settings are written as. -/
def toValue (s : Settings) : Value :=
  .object [
    (errorTextName.toList.map Text.part, .text (s.errorText.toList.map Text.part)),
    (GlyphField.multiply.name.toList.map Text.part, .text ([s.multiplyGlyph].map Text.part)),
    (GlyphField.divide.name.toList.map Text.part, .text ([s.divideGlyph].map Text.part)),
    (inputLimitName.toList.map Text.part, .number (Nat.toDigits 10 s.inputLimit.toNat))]

/-! ## Tokens -/

theorem tokens?_writeMember (name : String) (value rest : List Char) :
    tokens? (writeMember name value ++ rest) =
      (tokens? (value ++ rest)).map (.text (name.toList.map Text.part) :: .colon :: ·) := by
  have hcolon : tokens? (':' :: ' ' :: (value ++ rest)) =
      (tokens? (value ++ rest)).map (.colon :: ·) := by
    rw [tokens?_of_next? rfl, tokens?_space rfl]
  simp only [writeMember, List.cons_append, List.append_assoc]
  rw [tokens?_space rfl, tokens?_space rfl, tokens?_write, hcolon, Option.map_map]
  rfl

theorem tokens?_beginObject (rest : List Char) :
    tokens? ('\x7b' :: '\n' :: rest) = (tokens? rest).map (.beginObject :: ·) := by
  rw [tokens?_of_next? rfl, tokens?_space rfl]

theorem tokens?_comma (rest : List Char) :
    tokens? (',' :: '\n' :: rest) = (tokens? rest).map (.comma :: ·) := by
  rw [tokens?_of_next? rfl, tokens?_space rfl]

theorem tokens?_end : tokens? ['\n', '\x7d'] = some [.endObject] := by
  rw [tokens?_space rfl, tokens?_of_next? rfl, tokens?_nil]
  rfl

theorem tokens?_toJson (s : Settings) : tokens? s.toJson.toList = some s.toValue.tokens := by
  -- The limit is the only member whose end shows from the text behind it.
  have hstop : ∀ c ∈ ['\n', '\x7d'].head?, continuesNumber c = false := by
    rintro _ ⟨⟩
    rfl
  have hlimit : tokens? (Nat.toDigits 10 s.inputLimit.toNat ++ ['\n', '\x7d']) =
      some [.number (Nat.toDigits 10 s.inputLimit.toNat), .endObject] := by
    rw [tokens?_toDigits _ hstop, tokens?_end]
    rfl
  simp only [toJson, String.toList_ofList, List.cons_append, List.append_assoc,
    tokens?_beginObject, tokens?_writeMember, tokens?_write, tokens?_comma, hlimit]
  rfl

theorem read?_toJson (s : Settings) : read? s.toJson.toList = some s.toValue := by
  rw [read?, tokens?_toJson]
  exact ofTokens?_tokens s.toValue

/-! ## Settings -/

theorem limit?_toDigits (n : UInt64) : limit? (.number (Nat.toDigits 10 n.toNat)) = some n := by
  have hdigits : (Nat.toDigits 10 n.toNat).all Char.isDigit = true :=
    List.all_eq_true.2 fun _ => Decimal.isDigit_of_mem_toDigits
  have hvalue : Nat.ofDigitChars 10 (Nat.toDigits 10 n.toNat) 0 = n.toNat :=
    Nat.ofDigitChars_ten_toDigits
  simp [limit?, hdigits, hvalue, n.toNat_lt_size]

/-- Values under the names of all settings are read one by one. -/
theorem ofMembers?_zip_names (text first second limit : Value) :
    ofMembers? ((names.map String.toList).zip [text, first, second, limit]) =
      (do
        let errorText ← (chars? text).map String.ofList
        let multiplyGlyph ← glyph? first
        let divideGlyph ← glyph? second
        let inputLimit ← limit? limit
        some { errorText, multiplyGlyph, divideGlyph, inputLimit }) :=
  rfl

theorem ofValue?_toValue (s : Settings) : ofValue? s.toValue = some s := by
  have hmembers : ofValue? s.toValue = ofMembers? ((names.map String.toList).zip
      [.text (s.errorText.toList.map Text.part), .text ([s.multiplyGlyph].map Text.part),
        .text ([s.divideGlyph].map Text.part), .number (Nat.toDigits 10 s.inputLimit.toNat)]) := by
    simp only [toValue, ofValue?, List.mapM_cons, List.mapM_nil, Text.chars?_map_part]
    rfl
  have hglyph (c : Char) : glyph? (.text ([c].map Text.part)) = some c := by
    rw [glyph?, chars?, Text.chars?_map_part]
  have htext : chars? (.text (s.errorText.toList.map Text.part)) = some s.errorText.toList :=
    Text.chars?_map_part _
  rw [hmembers, ofMembers?_zip_names, htext, hglyph, hglyph, limit?_toDigits]
  simp

/-- Settings that are loaded have no fault. -/
theorem fault?_of_ofJson {text : String} {s : Settings} (h : ofJson text = .ok s) :
    s.fault? = none := by
  unfold ofJson at h
  split at h
  · cases h
  · split at h
    · cases h
    next hfault => cases h; exact hfault

/-- Valid settings are loaded from their own text as they are, and for others their first fault is
reported. So whatever settings are loaded from any text can be written and loaded again. -/
theorem ofJson_toJson (s : Settings) :
    (s.fault? = none → ofJson s.toJson = .ok s) ∧
    (∀ fault, s.fault? = some fault → ofJson s.toJson = .error (.invalid fault)) ∧
    ofJson s.toJson ≠ .error .unreadable ∧
    ∀ text, ofJson text = .ok s → ofJson s.toJson = .ok s := by
  have hread : (read? s.toJson.toList).bind ofValue? = some s := by
    rw [read?_toJson, Option.bind_some, ofValue?_toValue]
  have hvalid (h : s.fault? = none) : ofJson s.toJson = .ok s := by
    simp only [ofJson, hread, h]
  have hinvalid (fault : Fault) (h : s.fault? = some fault) :
      ofJson s.toJson = .error (.invalid fault) := by
    simp only [ofJson, hread, h]
  refine ⟨hvalid, hinvalid, ?_, fun text h => hvalid (fault?_of_ofJson h)⟩
  cases h : s.fault? with
  | none => rw [hvalid h]; exact nofun
  | some fault => rw [hinvalid fault h]; exact nofun

theorem ofJson_toJson_escapes :
    let text := "[\"\\\"\\u0001\\ud83d\\uDE00\", \"×\", \":\"]"
    let s : Settings := ⟨"\"\x01😀", '×', ':', 0⟩
    let s' : Settings := ⟨"?", '×', '×', 18446744073709551615⟩
    (ofJson text = .ok s ∧ ofJson s.toJson = .ok s) ∧
      (s.fault? = none ∧ ofJson s.toJson = .ok s) ∧
      s'.fault? = some .sameGlyphs ∧ ofJson s'.toJson = .error (.invalid .sameGlyphs) := by
  intro text s s'
  have hload : ofJson text = .ok s := by decide +kernel
  have hvalid : s.fault? = none := fault?_of_ofJson hload
  have hsame : s'.fault? = some .sameGlyphs := by decide +kernel
  exact ⟨⟨hload, (ofJson_toJson s).2.2.2 text hload⟩, ⟨hvalid, (ofJson_toJson s).1 hvalid⟩,
    hsame, (ofJson_toJson s').2.1 _ hsame⟩

end PocketCalculator.Settings
