import PocketCalculator.Proofs.Binary64.Order
import PocketCalculator.Proofs.Display.Reading
import PocketCalculator.Proofs.Session.Press

/-!
# The input line

What is typed are keypad characters, and so are the characters of finite numbers, but the hundredth
of an infinite number is a word. Therefore the input line holds keypad text for as long
as percent is not pressed on an infinite number, and never anything else than keypad text behind the
beginning of such a word (`input_keypad_iff`).
-/

namespace PocketCalculator

open Binary64

/-- Whether a character is on a key that types, or is the mark of an exponent. -/
def Settings.isKeypadChar (settings : Settings) (c : Char) : Bool :=
  c.isDigit || ".()+-E".toList.contains c || c == settings.multiplyGlyph ||
    c == settings.divideGlyph

variable {settings : Settings} {c : Char} {v : Float}

theorem Settings.isKeypadChar_of_common (h : (c.isDigit || ".()+-E".toList.contains c) = true) :
    settings.isKeypadChar c = true := by
  rw [isKeypadChar, h]
  rfl

theorem Settings.isKeypadChar_of_inNumber (h : inNumber c = true) :
    settings.isKeypadChar c = true := by
  rw [inNumber, Bool.or_eq_true] at h
  refine isKeypadChar_of_common (Bool.or_eq_true_iff.2 (h.imp_right fun h => ?_))
  have hmem : c = '.' ∨ c = '-' ∨ c = 'E' := by simpa using h
  rcases hmem with rfl | rfl | rfl <;> rfl

theorem Settings.isKeypadChar_of_all {cs : List Char}
    (h : (cs.all fun c => c.isDigit || ".()+-E".toList.contains c) = true) :
    ∀ c ∈ cs, settings.isKeypadChar c = true :=
  fun c hc => isKeypadChar_of_common (List.all_eq_true.1 h c hc)

/-- Every key types keypad characters. -/
theorem Key.isKeypadChar_of_typed? {key : Key} {text : String}
    (h : key.typed? settings = some text) : ∀ c ∈ text.toList, settings.isKeypadChar c = true := by
  have hsingleton {c : Char} (hc : settings.isKeypadChar c = true) :
      ∀ d ∈ (String.singleton c).toList, settings.isKeypadChar d = true := by
    intro d hd
    rw [String.toList_singleton, List.mem_singleton] at hd
    rwa [hd]
  cases key with
  | digit d =>
    rw [typed?, Option.ite_none_right_eq_some] at h
    obtain ⟨hd, ⟨⟩⟩ := h
    have hdigit : d.digitChar.isDigit = true := by
      rw [Nat.isDigit_digitChar]
      exact decide_eq_true (Nat.lt_succ_of_le hd)
    exact hsingleton (Settings.isKeypadChar_of_inNumber (inNumber_of_isDigit hdigit))
  | operator op =>
    cases op with
    | add | subtract =>
      cases h
      exact hsingleton (Settings.isKeypadChar_of_common (by decide))
    | multiply | divide =>
      cases h
      exact hsingleton (by simp [Settings.isKeypadChar])
  | doubleZero | point | openParen | closeParen =>
    cases h
    exact Settings.isKeypadChar_of_all (by decide)
  | percent | delete | clear | equals => cases h

/-- The word for an infinite number is not keypad text: two glyphs do not make up for three
letters. -/
theorem Settings.exists_mem_text_of_infinity (settings : Settings) (hv : word v = infinity) :
    ∃ c ∈ (Display.text v).toList, settings.isKeypadChar c = false := by
  by_contra hall
  have hglyph {c : Char} (hc : c ∈ (Display.text v).toList)
      (hother : (c.isDigit || ".()+-E".toList.contains c) = false) :
      c = settings.multiplyGlyph ∨ c = settings.divideGlyph := by
    have hkeypad : settings.isKeypadChar c = true := by
      rw [← Bool.not_eq_false]
      exact fun hfalse => hall ⟨c, hc, hfalse⟩
    rw [isKeypadChar, hother, Bool.false_or, Bool.or_eq_true, beq_iff_eq, beq_iff_eq] at hkeypad
    exact hkeypad
  obtain ⟨hn, hf, ht⟩ : 'n' ∈ (Display.text v).toList ∧ 'f' ∈ (Display.text v).toList ∧
      't' ∈ (Display.text v).toList := by
    rw [Display.text_of_word_eq_infinity hv]
    split <;> decide
  have hne : 'n' ≠ 'f' ∧ 'n' ≠ 't' ∧ 'f' ≠ 't' := by decide
  have hn := hglyph hn (by decide)
  have hf := hglyph hf (by decide)
  have ht := hglyph ht (by decide)
  grind

/-! ## One key -/

namespace Session

variable {s s' : Session} {key : Key} {keys : List Key}

/-- Whether percent puts a word on the input line in place of an infinite number. -/
def WritesWord (s : Session) : Prop :=
  ∃ v, Decimal.readFloat? s.input.toList = some v ∧ v.isInf = true ∧
    s.fits (Display.text (v / 100.0)).length = true

/-- The quotient that percent displays is finite or infinite, just as the number on the input
line. -/
theorem word_hundredth (h : Decimal.readFloat? s.input.toList = some v) :
    word (v / 100.0) < infinity ∨ v.isInf = true ∧ word (v / 100.0) = infinity := by
  rcases Nat.lt_or_eq_of_le (Decimal.word_readFloat? h) with hv | hv
  · exact .inl (word_hundredth_lt_infinity hv)
  · exact .inr ⟨(isInf_iff v).2 hv, word_div_eq_infinity hv (by decide) (by decide)⟩

/-- A key that does not put a word on the input line leaves keypad text there. -/
theorem Pressed.isKeypadChar (h : s.Pressed key s')
    (hinput : ∀ c ∈ s.input.toList, s.settings.isKeypadChar c = true)
    (hword : key = .percent → ¬s.WritesWord) :
    ∀ c ∈ s'.input.toList, s.settings.isKeypadChar c = true := by
  cases h with
  | ignored | evaluated | failed => exact hinput
  | cleared => exact fun c hc => nomatch hc
  | deleted =>
    rw [String.toList_ofList]
    exact fun c hc => hinput c (List.mem_of_mem_dropLast hc)
  | typed htyped hfits =>
    intro c hc
    rw [String.toList_append, List.mem_append] at hc
    exact hc.elim (hinput c) (Key.isKeypadChar_of_typed? htyped c)
  | divided hread hfits =>
    rcases word_hundredth hread with hfinite | ⟨hinf, -⟩
    · exact fun c hc =>
        Settings.isKeypadChar_of_inNumber (Display.inNumber_of_mem_text hfinite hc)
    · exact absurd ⟨_, hread, hinf, hfits⟩ (hword rfl)

/-- A text is keypad text, maybe behind the beginning of the word for an infinite number. -/
def BehindWord (settings : Settings) (text : String) : Prop :=
  ∃ word rest, text.toList = word ++ rest ∧
    (word <+: "Infinity".toList ∨ word <+: "-Infinity".toList) ∧
      ∀ c ∈ rest, settings.isKeypadChar c = true

theorem Pressed.behindWord (h : s.Pressed key s') (hinput : BehindWord s.settings s.input) :
    BehindWord s.settings s'.input := by
  obtain ⟨word, rest, heq, hword, hrest⟩ := hinput
  cases h with
  | ignored | evaluated | failed => exact ⟨word, rest, heq, hword, hrest⟩
  | cleared => exact ⟨[], [], rfl, .inl List.nil_prefix, nofun⟩
  | deleted =>
    rw [BehindWord, String.toList_ofList, heq]
    cases rest.eq_nil_or_concat' with
    | inl hnil =>
      have hprefix : word.dropLast <+: word := List.dropLast_prefix word
      refine ⟨word.dropLast, [], by rw [hnil, List.append_nil, List.append_nil], ?_, nofun⟩
      exact hword.imp hprefix.trans hprefix.trans
    | inr hconcat =>
      obtain ⟨rest', c, rfl⟩ := hconcat
      refine ⟨word, rest', ?_, hword, fun d hd => hrest d (List.mem_append_left _ hd)⟩
      rw [← List.append_assoc, List.dropLast_concat]
  | @typed _ text htyped hfits =>
    refine ⟨word, rest ++ text.toList, ?_, hword, ?_⟩
    · rw [String.toList_append, heq, List.append_assoc]
    · intro c hc
      exact (List.mem_append.1 hc).elim (hrest c) (Key.isKeypadChar_of_typed? htyped c)
  | divided hread hfits =>
    rcases word_hundredth hread with hfinite | ⟨-, hinfinite⟩
    · exact ⟨[], _, rfl, .inl List.nil_prefix, fun c hc =>
        Settings.isKeypadChar_of_inNumber (Display.inNumber_of_mem_text hfinite hc)⟩
    · refine ⟨_, [], (List.append_nil _).symm, ?_, nofun⟩
      rw [Display.text_of_word_eq_infinity hinfinite]
      split
      · exact .inr (List.prefix_refl _)
      · exact .inl (List.prefix_refl _)

/-! ## Runs -/

theorem behindWord_foldl_press (settings : Settings) (keys : List Key) :
    BehindWord settings (keys.foldl press { settings }).input := by
  refine invariant_foldl_press (P := fun s => BehindWord settings s.input)
    (fun hsettings hpressed hs => ?_) rfl ⟨[], [], rfl, .inl List.nil_prefix, nofun⟩ keys
  subst hsettings
  exact hpressed.behindWord hs

theorem isKeypadChar_foldl_press
    (h : ∀ before after, keys = before ++ .percent :: after →
      ¬(before.foldl press { settings }).WritesWord) :
    ∀ c ∈ (keys.foldl press { settings }).input.toList, settings.isKeypadChar c = true := by
  induction keys using List.reverseRecOn with
  | nil => exact fun c hc => nomatch hc
  | append_singleton keys key ih =>
    rw [List.foldl_append, List.foldl_cons, List.foldl_nil]
    have hsettings : (keys.foldl press { settings }).settings = settings :=
      settings_foldl_press keys { settings }
    have hpressed := (pressed (keys.foldl press { settings }) key).isKeypadChar
    rw [hsettings] at hpressed
    refine hpressed (ih fun before after heq => ?_) ?_
    · exact h before (after ++ [key]) (by rw [heq, List.append_assoc, List.cons_append])
    · rintro rfl
      exact h keys [] rfl

/-- During a run the input line holds keypad text if and only if percent never puts a word there for
an infinite number. In any case it is keypad text behind the beginning of such a word at most. -/
theorem input_keypad_iff (settings : Settings) (keys : List Key) :
    ((∀ run, run <+: keys → ∀ c ∈ (run.foldl press { settings }).input.toList,
        settings.isKeypadChar c = true) ↔
      ∀ before after, keys = before ++ .percent :: after →
        ¬(before.foldl press { settings }).WritesWord) ∧
    BehindWord settings (keys.foldl press { settings }).input := by
  refine ⟨⟨fun hkeypad before after heq hword => ?_, fun h run hrun => ?_⟩,
    behindWord_foldl_press settings keys⟩
  · obtain ⟨v, hread, hinf, hfits⟩ := hword
    have hquotient : word (v / 100.0) = infinity :=
      word_div_eq_infinity ((isInf_iff v).1 hinf) (by decide) (by decide)
    obtain ⟨c, hc, hother⟩ := settings.exists_mem_text_of_infinity hquotient
    have hinput : ((before ++ [Key.percent]).foldl press { settings }).input =
        Display.text (v / 100.0) := by
      rw [List.foldl_append, List.foldl_cons, List.foldl_nil, press_percent_of_fits hread hfits]
    have hrun : before ++ [Key.percent] <+: keys := ⟨after, by rw [heq, List.append_assoc]; rfl⟩
    have hc := hkeypad _ hrun c (by rwa [hinput])
    rw [hother] at hc
    cases hc
  · obtain ⟨rest, rfl⟩ := hrun
    refine isKeypadChar_foldl_press fun before after heq => ?_
    exact h before (after ++ rest) (by rw [heq, List.append_assoc, List.cons_append])

/-- With an exponent typed behind a mark that percent has left, a few keys suffice for a word. -/
theorem not_forall_isKeypadChar :
    ¬∀ (settings : Settings) (keys : List Key), settings.fault? = none →
      ∀ c ∈ (keys.foldl press { settings }).input.toList, settings.isKeypadChar c = true := by
  intro h
  have hinput : (([.digit 1, .doubleZero, .doubleZero, .doubleZero, .doubleZero, .digit 0, .percent,
      .digit 9, .digit 9, .percent] : List Key).foldl press {}).input = "Infinity" := by
    decide +kernel
  have hkeypad := h {} _ (by decide) 'I' (by rw [hinput]; decide)
  exact absurd hkeypad (by decide)

end Session

end PocketCalculator
