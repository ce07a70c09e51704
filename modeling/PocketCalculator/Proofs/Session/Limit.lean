import PocketCalculator.Proofs.Session.Press

/-!
# The limit of the input line

The input line grows by what a typing key types, and changes as a whole when percent is pressed.
Both are checked against the limit first, so that no run of keys leaves an input line that is too
long (`fits_length_foldl_press`), and a key that would is without any effect (`input_limit`). The
limit counts characters and not the bytes of their encoding.
-/

namespace PocketCalculator

/-- Of the typing keys, only a digit above nine types nothing. -/
theorem Key.typed?_eq_none_iff {key : Key} {settings : Settings} :
    key.typed? settings = none ↔
      key ∈ [Key.delete, .clear, .percent, .equals] ∨ ∃ d, 9 < d ∧ key = .digit d := by
  cases key with
  | digit d => simp [typed?]
  | operator op => cases op <;> simp [typed?]
  | doubleZero | point | openParen | closeParen | percent | delete | clear | equals =>
    simp [typed?]

/-- A typing key types a character, or two zeros. -/
theorem Key.length_of_typed? {key : Key} {settings : Settings} {text : String}
    (h : key.typed? settings = some text) :
    key ≠ .doubleZero ∧ text.length = 1 ∨ key = .doubleZero ∧ text = "00" := by
  cases key with
  | digit d =>
    rw [typed?, Option.ite_none_right_eq_some] at h
    obtain ⟨-, ⟨⟩⟩ := h
    exact .inl ⟨nofun, String.length_singleton⟩
  | operator op =>
    cases op <;> cases h <;> exact .inl ⟨nofun, String.length_singleton⟩
  | doubleZero =>
    cases h
    exact .inr ⟨rfl, rfl⟩
  | point | openParen | closeParen =>
    cases h
    exact .inl ⟨nofun, rfl⟩
  | percent | delete | clear | equals => cases h

namespace Session

variable {s s' : Session} {key : Key} {text : String} {m n : Nat} {v : Float}

theorem fits_iff :
    s.fits n = true ↔ s.settings.inputLimit.toNat = 0 ∨ n ≤ s.settings.inputLimit.toNat := by
  rw [fits, Bool.or_eq_true, beq_iff_eq, decide_eq_true_eq, ← UInt64.toNat_inj, UInt64.toNat_zero]

theorem fits_of_le (h : s.fits n = true) (hle : m ≤ n) : s.fits m = true :=
  fits_iff.2 ((fits_iff.1 h).imp_right (Nat.le_trans hle))

/-- After any key the input line is within the limit if it was before. -/
theorem Pressed.fits_length (h : s.Pressed key s') (hs : s.fits s.input.length = true) :
    s'.fits s'.input.length = true := by
  cases h with
  | ignored | evaluated | failed => exact hs
  | deleted =>
    refine fits_of_le hs ?_
    rw [String.length_ofList, List.length_dropLast]
    exact Nat.sub_le _ _
  | cleared => exact fits_of_le hs (Nat.zero_le _)
  | typed _ hfits =>
    rw [String.length_append]
    exact hfits
  | divided _ hfits => exact hfits

theorem fits_length_foldl_press (settings : Settings) (keys : List Key) :
    (keys.foldl press { settings }).fits (keys.foldl press { settings }).input.length = true :=
  invariant_foldl_press (P := fun s => s.fits s.input.length = true)
    (fun _ hpressed hs => hpressed.fits_length hs) rfl (fits_iff.2 (.inr (Nat.zero_le _))) keys

/-- A typing key types all of its text or nothing. -/
theorem press_of_typed? (h : key.typed? s.settings = some text) :
    s.press key =
      if s.fits (s.input ++ text).length = true then { s with input := s.input ++ text }
      else s := by
  have hkey : key ∉ [Key.delete, .clear, .percent, .equals] := fun hmem =>
    Option.some_ne_none text (h.symm.trans (Key.typed?_eq_none_iff.2 (.inl hmem)))
  rw [press_eq_elim s hkey, h, Option.elim_some, append, String.length_append]

theorem press_digit_of_lt {d : Nat} (hd : 9 < d) : s.press (.digit d) = s := by
  rw [press_eq_elim s (by simp), Key.typed?_eq_none_iff.2 (.inr ⟨d, hd, rfl⟩), Option.elim_none]

/-- After any keys the input line is within the limit, and the next key changes it as a whole or not
at all: a typing key types all of its text if this fits, and percent rewrites a number if its
hundredth fits. Without a limit, only a digit above nine is ignored among the typing keys. -/
theorem input_limit (settings : Settings) (keys : List Key) :
    let s := keys.foldl press { settings }
    let limit := settings.inputLimit.toNat
    (limit = 0 ∨ s.input.length ≤ limit) ∧
    (∀ key ∉ [Key.delete, .clear, .percent, .equals],
      (∃ d, 9 < d ∧ key = .digit d ∧ s.press key = s) ∨
      ∃ text, key.typed? settings = some text ∧
        (key ≠ .doubleZero ∧ text.length = 1 ∨ key = .doubleZero ∧ text = "00") ∧
        s.press key =
          if limit = 0 ∨ (s.input ++ text).length ≤ limit then { s with input := s.input ++ text }
          else s) ∧
    s.press .percent = match Decimal.readFloat? s.input.toList with
      | some v =>
        if limit = 0 ∨ (Display.text (v / 100.0)).length ≤ limit then
          { s with input := Display.text (v / 100.0) }
        else s
      | none => s := by
  intro s limit
  have hsettings : s.settings = settings := settings_foldl_press keys { settings }
  have hfits (n : Nat) : s.fits n = true ↔ limit = 0 ∨ n ≤ limit := by
    rw [fits_iff, hsettings]
  refine ⟨(hfits _).1 (fits_length_foldl_press settings keys), fun key hkey => ?_, ?_⟩
  · cases htyped : key.typed? settings with
    | none =>
      rcases Key.typed?_eq_none_iff.1 htyped with hmem | ⟨d, hd, rfl⟩
      · exact absurd hmem hkey
      · exact .inl ⟨d, hd, rfl, press_digit_of_lt hd⟩
    | some text =>
      refine .inr ⟨text, rfl, Key.length_of_typed? htyped, ?_⟩
      have hpress := press_of_typed? (s := s) (hsettings ▸ htyped)
      simpa only [hfits] using hpress
  · rw [press_percent]
    cases Decimal.readFloat? s.input.toList with
    | none => rfl
    | some v => simp only [Option.elim_some, hfits]

/-- The limit counts characters: with room for one more, a digit is typed behind a glyph of four
bytes, but no two zeros. -/
theorem input_limit_of_wide_glyph :
    let settings : Settings := { multiplyGlyph := '𝟙', inputLimit := 3 }
    let s := ([.digit 1, .operator .multiply] : List Key).foldl press { settings }
    s.input = "1𝟙" ∧ s.input.utf8ByteSize = 5 ∧
      s.press (.digit 5) = { s with input := "1𝟙5" } ∧ s.press .doubleZero = s ∧
      s.press (.digit 10) = s ∧ s.press .percent = s := by
  intro settings
  have hinput : (([.digit 1, .operator .multiply] : List Key).foldl press { settings }).input =
      "1𝟙" := by decide +kernel
  have hlimit := input_limit settings [.digit 1, .operator .multiply]
  generalize ([.digit 1, .operator .multiply] : List Key).foldl press { settings } = s
    at hinput hlimit ⊢
  obtain ⟨-, htyping, hpercent⟩ := hlimit
  simp only [hinput] at htyping hpercent ⊢
  obtain ⟨d, hd, ⟨⟩, -⟩ | ⟨_, ⟨⟩, -, hfive⟩ := htyping (.digit 5) (by decide)
  · exact absurd hd (by decide)
  obtain ⟨_, _, ⟨⟩, -⟩ | ⟨_, ⟨⟩, -, hzeros⟩ := htyping .doubleZero (by decide)
  obtain ⟨d, -, ⟨⟩, hten⟩ | ⟨_, ⟨⟩, -, -⟩ := htyping (.digit 10) (by decide)
  rw [if_pos (by decide +kernel)] at hfive
  rw [if_neg (by decide +kernel)] at hzeros
  have hread : Decimal.readFloat? "1𝟙".toList = none := by decide +kernel
  rw [hread] at hpercent
  exact ⟨trivial, by decide +kernel, hfive, hzeros, hten, hpercent⟩

end Session

end PocketCalculator
