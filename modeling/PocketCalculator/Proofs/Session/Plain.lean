import PocketCalculator.Proofs.Binary64.Quotient
import PocketCalculator.Proofs.Display.Reading
import PocketCalculator.Proofs.Glyphs
import PocketCalculator.Proofs.Session.Press

/-!
# Sessions without glyphs

A session with valid settings presents a session without glyphs, whose keys type the symbols of the
operators and whose input line is evaluated as it stands. One key press keeps the two in step
(`Presents.press`), and so does a run of them (`Presents.foldl_press`), as long as no infinite
number is divided by a hundred: the word on its display may contain glyphs.
-/

namespace PocketCalculator

open Binary64

variable {settings : Settings}

/-- A session whose keys type the symbols of the operators. -/
structure PlainSession where
  errorText : String
  inputLimit : UInt64
  input : String := ""
  result : String := ""
  error : Option EvalError := none

namespace PlainSession

/-- A fresh session with the settings that matter without glyphs. -/
def ofSettings (settings : Settings) : PlainSession where
  errorText := settings.errorText
  inputLimit := settings.inputLimit

def fits (p : PlainSession) (n : Nat) : Bool :=
  p.inputLimit == 0 || n ≤ p.inputLimit.toNat

/-- What a key types, if it is a typing key. -/
def typed? : Key → Option String
  | .digit d => if d ≤ 9 then some (.singleton d.digitChar) else none
  | .doubleZero => some "00"
  | .point => some "."
  | .operator op => some (.singleton op.symbol)
  | .openParen => some "("
  | .closeParen => some ")"
  | .percent | .delete | .clear | .equals => none

/-- Changes the input line to a text if that is within the limit. -/
def edit (p : PlainSession) (text : String) : PlainSession :=
  if p.fits text.length then { p with input := text } else p

/-- Types a text, if there is one, at the end of the input line. -/
def type (p : PlainSession) : Option String → PlainSession
  | some text => p.edit (p.input ++ text)
  | none => p

def percent (p : PlainSession) : PlainSession :=
  match Decimal.readFloat? p.input.toList with
  | some v => p.edit (Display.text (v / 100.0))
  | none => p

/-- Evaluates the input line as it stands. -/
def equals (p : PlainSession) : PlainSession :=
  match evaluate p.input with
  | .ok v => { p with result := Display.text v, error := none }
  | .error e => { p with result := p.errorText, error := some e }

/-- Presses a key. -/
def press (p : PlainSession) : Key → PlainSession
  | .delete => { p with input := .ofList p.input.toList.dropLast }
  | .clear => { p with input := "", result := "", error := none }
  | .percent => p.percent
  | .equals => p.equals
  | key => p.type (typed? key)

end PlainSession

/-! ## One key -/

namespace Session

/-- Whether a text is that of an infinite number. -/
def isInfText (text : String) : Bool :=
  (Decimal.readFloat? text.toList).any Float.isInf

/-- A session and the session without glyphs that it presents. -/
structure Presents (s : Session) (p : PlainSession) : Prop where
  errorText : s.settings.errorText = p.errorText
  inputLimit : s.settings.inputLimit = p.inputLimit
  input : s.settings.canonical s.input = p.input
  result : s.result = p.result
  error : s.error = p.error

variable {s : Session} {p : PlainSession} {key : Key}

theorem Presents.length_input (h : s.Presents p) : s.input.length = p.input.length := by
  rw [← h.input, Settings.length_canonical]

theorem Presents.fits (h : s.Presents p) (n : Nat) : s.fits n = p.fits n := by
  rw [Session.fits, PlainSession.fits, h.inputLimit]

theorem Presents.readFloat?_input (h : s.Presents p) (hvalid : s.settings.fault? = none) :
    Decimal.readFloat? p.input.toList = Decimal.readFloat? s.input.toList := by
  rw [← h.input, Settings.readFloat?_canonical hvalid]

theorem Presents.isInfText_input (h : s.Presents p) (hvalid : s.settings.fault? = none) :
    isInfText p.input = isInfText s.input := by
  rw [isInfText, h.readFloat?_input hvalid, isInfText]

/-- Both sessions keep in step when their input lines change to texts that correspond. -/
theorem Presents.edit (h : s.Presents p) {text text' : String}
    (htext : s.settings.canonical text = text') :
    (if s.fits text.length then { s with input := text } else s).Presents (p.edit text') := by
  have hlength : text.length = text'.length := by
    rw [← htext, Settings.length_canonical]
  rw [PlainSession.edit, h.fits, hlength]
  split
  · exact ⟨h.errorText, h.inputLimit, htext, h.result, h.error⟩
  · exact h

theorem canonical_typed? (h : settings.fault? = none) (key : Key) :
    (key.typed? settings).map settings.canonical = PlainSession.typed? key := by
  have hself {text : String} (htext : text.toList.all Settings.isReserved = true) :
      (some text).map settings.canonical = some text :=
    congrArg some (Settings.canonical_of_isReserved h (List.all_eq_true.1 htext))
  have hsingleton {c : Char} (hc : Settings.isReserved c = true) :
      (some (String.singleton c)).map settings.canonical = some (.singleton c) := by
    refine hself ?_
    rw [String.toList_singleton, List.all_cons, hc, List.all_nil, Bool.and_true]
  cases key with
  | digit d =>
    rw [Key.typed?, PlainSession.typed?]
    split
    next hd =>
      refine hsingleton (Settings.isReserved_of_inNumber (inNumber_of_isDigit ?_))
      rw [Nat.isDigit_digitChar]
      exact decide_eq_true (Nat.lt_succ_of_le hd)
    next => rfl
  | operator op =>
    cases op with
    | add | subtract => exact hsingleton (by decide)
    | multiply =>
      rw [Key.typed?, Option.map_some, Settings.canonical_singleton,
        Settings.canonicalChar_multiplyGlyph]
      rfl
    | divide =>
      rw [Key.typed?, Option.map_some, Settings.canonical_singleton,
        Settings.canonicalChar_divideGlyph h]
      rfl
  | doubleZero | point | openParen | closeParen => exact hself (by decide)
  | percent | delete | clear | equals => rfl

theorem Presents.percent (h : s.Presents p) (hvalid : s.settings.fault? = none)
    (hfinite : isInfText s.input = false) : s.percent.Presents p.percent := by
  cases hread : Decimal.readFloat? s.input.toList with
  | none =>
    simp only [Session.percent, PlainSession.percent, h.readFloat?_input hvalid, hread]
    exact h
  | some v =>
    simp only [Session.percent, PlainSession.percent, h.readFloat?_input hvalid, hread]
    have hv : word v < infinity := by
      rw [isInfText, hread, Option.any_some] at hfinite
      refine Nat.lt_of_le_of_ne (Decimal.word_readFloat? hread) fun heq => ?_
      rw [(isInf_iff v).2 heq] at hfinite
      cases hfinite
    have hquotient : word (v / 100.0) < infinity :=
      word_div_lt_infinity hv (by decide) (by decide)
    exact h.edit (Settings.canonical_of_inNumber hvalid fun c hc =>
      Display.inNumber_of_mem_text hquotient hc)

theorem Presents.equals (h : s.Presents p) : s.equals.Presents p.equals := by
  cases heval : evaluate p.input with
  | ok v =>
    simp only [Session.equals, PlainSession.equals, evaluateDisplayed, h.input, heval]
    exact ⟨h.errorText, h.inputLimit, h.input, rfl, rfl⟩
  | error e =>
    simp only [Session.equals, PlainSession.equals, evaluateDisplayed, h.input, heval]
    exact ⟨h.errorText, h.inputLimit, h.input, h.errorText, rfl⟩

theorem Presents.deleteLast (h : s.Presents p) :
    s.deleteLast.Presents { p with input := .ofList p.input.toList.dropLast } where
  errorText := h.errorText
  inputLimit := h.inputLimit
  input := by
    rw [← h.input, Settings.toList_canonical, ← List.map_dropLast]
    rw [Settings.canonical, Session.deleteLast, String.toList_ofList]
  result := h.result
  error := h.error

theorem Presents.clear (h : s.Presents p) :
    Presents { settings := s.settings } { p with input := "", result := "", error := none } where
  errorText := h.errorText
  inputLimit := h.inputLimit
  input := rfl
  result := rfl
  error := rfl

theorem Presents.type (h : s.Presents p) (text? : Option String) :
    (text?.elim s s.append).Presents (p.type (text?.map s.settings.canonical)) := by
  cases text? with
  | none => exact h
  | some text =>
    have hinput : s.settings.canonical (s.input ++ text) =
        p.input ++ s.settings.canonical text := by
      rw [Settings.canonical_append, h.input]
    change (if s.fits (s.input.length + text.length) then _ else s).Presents _
    rw [← String.length_append]
    exact h.edit hinput

theorem Presents.press (h : s.Presents p) (hvalid : s.settings.fault? = none)
    (hfinite : key = .percent → isInfText s.input = false) :
    (s.press key).Presents (p.press key) := by
  have htype := h.type (key.typed? s.settings)
  rw [canonical_typed? hvalid] at htype
  cases key with
  | percent => exact h.percent hvalid (hfinite rfl)
  | delete => exact h.deleteLast
  | clear => exact h.clear
  | equals => exact h.equals
  | digit | doubleZero | point | operator | openParen | closeParen =>
    rwa [press_eq_elim s (by simp)]

/-! ## Runs -/

theorem presents_ofSettings {settings' : Settings}
    (herror : settings'.errorText = settings.errorText)
    (hlimit : settings'.inputLimit = settings.inputLimit) :
    Presents { settings := settings' } (.ofSettings settings) where
  errorText := herror
  inputLimit := hlimit
  input := rfl
  result := rfl
  error := rfl

/-- Two sessions stay in step over a run in which no infinite number is divided by a hundred, on
the input line of one of them. -/
theorem Presents.foldl_press {keys : List Key} (h : s.Presents p)
    (hvalid : s.settings.fault? = none)
    (hfinite : ∀ before after, keys = before ++ .percent :: after →
      isInfText (before.foldl Session.press s).input = false ∨
        isInfText (before.foldl PlainSession.press p).input = false) :
    (keys.foldl Session.press s).Presents (keys.foldl PlainSession.press p) := by
  -- Either session can be asked about its number, since the other one has the same.
  induction keys generalizing s p with
  | nil => exact h
  | cons key keys ih =>
    have hkey : key = .percent → isInfText s.input = false := by
      rintro rfl
      rcases hfinite [] keys rfl with hs | hp
      · exact hs
      · rwa [List.foldl_nil, h.isInfText_input hvalid] at hp
    refine ih (h.press hvalid hkey) ((settings_press s key).symm ▸ hvalid) ?_
    rintro before after rfl
    exact hfinite (key :: before) after rfl

/-- Sessions with valid settings show what the session without glyphs shows, and thus what every
other session does whose valid settings differ in their glyphs only. -/
theorem shows_plain (hvalid : settings.fault? = none) (keys : List Key)
    (hfinite : ∀ before after, keys = before ++ .percent :: after →
      isInfText (before.foldl press { settings }).input = false) :
    ∀ before, before <+: keys →
      let s := before.foldl press { settings }
      let p := before.foldl PlainSession.press (.ofSettings settings)
      settings.canonical s.input = p.input ∧ s.input.length = p.input.length ∧
        s.result = p.result ∧ s.error = p.error ∧
        ∀ settings' : Settings, settings'.fault? = none →
          settings'.errorText = settings.errorText → settings'.inputLimit = settings.inputLimit →
          let s' := before.foldl press { settings := settings' }
          s'.result = s.result ∧ s'.error = s.error := by
  have hrun {run : List Key} (hstart : run <+: keys) :
      (run.foldl press { settings }).Presents
        (run.foldl PlainSession.press (.ofSettings settings)) := by
    obtain ⟨rest, rfl⟩ := hstart
    refine (presents_ofSettings rfl rfl).foldl_press hvalid fun before after heq => .inl ?_
    refine hfinite before (after ++ rest) ?_
    rw [heq, List.append_assoc, List.cons_append]
  have hsettings (run : List Key) : (run.foldl press { settings }).settings = settings :=
    settings_foldl_press run { settings }
  intro before hbefore s p
  have hs : s.Presents p := hrun hbefore
  refine ⟨(hsettings before) ▸ hs.input, hs.length_input, hs.result, hs.error, ?_⟩
  intro settings' hvalid' herror hlimit s'
  -- The other session has a condition of its own, which the session without glyphs passes on.
  have hs' : s'.Presents p := by
    refine (presents_ofSettings herror hlimit).foldl_press hvalid' fun run after heq => .inr ?_
    obtain ⟨rest, rfl⟩ := hbefore
    have hkeys : before ++ rest = run ++ .percent :: (after ++ rest) := by
      rw [heq, List.append_assoc, List.cons_append]
    have hrun := hrun ⟨.percent :: (after ++ rest), hkeys.symm⟩
    rw [hrun.isInfText_input (by rw [hsettings, hvalid])]
    exact hfinite run (after ++ rest) hkeys
  exact ⟨hs'.result.trans hs.result.symm, hs'.error.trans hs.error.symm⟩

theorem shows_plain_swapped :
    let settings : Settings := { multiplyGlyph := '÷', divideGlyph := '×' }
    let keys : List Key := [.digit 6] ++ .percent :: [.operator .divide, .digit 4, .equals]
    let s := keys.foldl press { settings }
    let p := keys.foldl PlainSession.press (.ofSettings settings)
    settings.fault? = none ∧ s.input = "0.06×4" ∧ p.input = "0.06/4" ∧ p.result = "0.015" ∧
      settings.canonical s.input = p.input ∧ s.result = p.result := by
  intro settings keys s p
  have hvalid : settings.fault? = none := by decide
  have hfinite (before after : List Key) (heq : keys = before ++ .percent :: after) :
      isInfText (before.foldl press { settings }).input = false := by
    obtain ⟨rfl, -⟩ := (List.append_cons_inj_of_notMem (by decide) (by decide)).1 heq
    decide +kernel
  obtain ⟨hinput, -, hresult, -⟩ := shows_plain hvalid keys hfinite keys (List.prefix_refl keys)
  exact ⟨hvalid, by decide +kernel, by decide +kernel, by decide +kernel, hinput, hresult⟩

end Session

end PocketCalculator
