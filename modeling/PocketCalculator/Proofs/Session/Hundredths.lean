import Mathlib.Logic.Function.Iterate
import PocketCalculator.Proofs.Binary64.Quotient
import PocketCalculator.Proofs.Display.Reading
import PocketCalculator.Proofs.Session.Press

/-!
# Percent again and again

What percent leaves on the input line is read again as just the number that it displays. So pressed
any number of times, percent divides as often and never rounds in between (`press_percent_iterate`),
until the line would get too long. From then on it does nothing.
-/

namespace PocketCalculator.Session

open Binary64

variable {s : Session} {key : Key} {v : Float}

/-- A key without effect has none however often it is pressed. -/
theorem foldl_press_replicate (h : s.press key = s) (n : Nat) :
    (List.replicate n key).foldl press s = s := by
  induction n with
  | zero => rfl
  | succ n ih => rw [List.replicate_succ, List.foldl_cons, h, ih]

theorem word_hundredths (hv : word v < infinity) (n : Nat) :
    word ((· / 100.0)^[n] v) < infinity := by
  induction n with
  | zero => exact hv
  | succ n ih =>
    rw [Function.iterate_succ_apply']
    exact word_hundredth_lt_infinity ih

/-- While the texts fit, the input line reads as the number divided as often as percent was pressed,
and once it was, displays it. Nothing else changes. -/
theorem foldl_press_percent (hread : Decimal.readFloat? s.input.toList = some v)
    (hv : word v < infinity) (n : Nat)
    (hfits : ∀ k < n, s.fits (Display.text ((· / 100.0)^[k + 1] v)).length = true) :
    ∃ input, (List.replicate n .percent).foldl press s = { s with input } ∧
      Decimal.readFloat? input.toList = some ((· / 100.0)^[n] v) ∧
        (n ≠ 0 → input = Display.text ((· / 100.0)^[n] v)) := by
  induction n with
  | zero => exact ⟨s.input, rfl, hread, nofun⟩
  | succ n ih =>
    obtain ⟨input, hrun, hinput, -⟩ := ih fun k hk => hfits k (Nat.lt_succ_of_lt hk)
    have hnext := hfits n n.lt_succ_self
    rw [Function.iterate_succ_apply'] at hnext
    have hpress : ({ s with input } : Session).press .percent = _ :=
      press_percent_of_fits hinput hnext
    refine ⟨_, ?_, Display.readFloat?_text (word_hundredths hv (n + 1)), fun _ => rfl⟩
    rw [List.replicate_succ', List.foldl_append, hrun, List.foldl_cons, List.foldl_nil, hpress,
      Function.iterate_succ_apply']

/-- Percent divides exactly, and leaves a number. Where the number on the input line is finite and
the texts of its hundredths fit, percent changes nothing but the input line, and this to the text
that displays the number divided as often as percent was pressed. The text is a number again, and
just this one. A hundredth that does not fit makes percent void for good. -/
theorem press_percent_iterate (hnumber : Decimal.isNumberText s.input.toList = true)
    (hparse : Decimal.parseFloat? s.input.toList = some v) (hfinite : v.isFinite = true) (n : Nat)
    (hfits : ∀ k, 1 ≤ k → k ≤ n → s.fits (Display.text ((· / 100.0)^[k] v)).length = true) :
    let s' := (List.replicate n .percent).foldl press s
    (1 ≤ n →
      s' = { s with input := Display.text ((· / 100.0)^[n] v) } ∧
        Decimal.isNumberText s'.input.toList = true ∧
          Decimal.parseFloat? s'.input.toList = some ((· / 100.0)^[n] v)) ∧
    (s.fits (Display.text ((· / 100.0)^[n + 1] v)).length = false →
      ∀ m, (List.replicate m .percent).foldl press s' = s') := by
  have hread : Decimal.readFloat? s.input.toList = some v := by
    rw [Decimal.readFloat?, if_pos hnumber, hparse]
  obtain ⟨input, hrun, hinput, htext⟩ := foldl_press_percent hread ((isFinite_iff v).1 hfinite) n
    fun k hk => hfits (k + 1) (Nat.le_add_left 1 k) hk
  rw [hrun]
  refine ⟨fun hn => ?_, fun hlong => foldl_press_replicate ?_⟩
  · have hparts := hinput
    rw [Decimal.readFloat?, Option.ite_none_right_eq_some] at hparts
    exact ⟨by rw [htext (Nat.one_le_iff_ne_zero.1 hn)], hparts⟩
  · rw [Function.iterate_succ_apply'] at hlong
    exact press_percent_of_not_fits hinput hlong

/-- In five characters there is no room for the hundredth of a hundredth, but any room is enough for
a number that is already too small to be divided. -/
theorem press_percent_iterate_of_five_characters :
    let s : Session := { settings := { inputLimit := 5 }, input := "5" }
    let s' : Session := { settings := { inputLimit := 5 }, input := "-.1E-321" }
    (∀ m, (List.replicate (m + 1) .percent).foldl press s = { s with input := "0.05" }) ∧
      (List.replicate 3 .percent).foldl press s' = { s' with input := "-0.0" } := by
  intro s s'
  obtain ⟨hfive, hlong⟩ := press_percent_iterate (s := s) (v := 5.0) (by decide)
    (by decide +kernel) (by decide) 1 fun k hk hk' => by
      obtain rfl := Nat.le_antisymm hk' hk
      decide +kernel
  obtain ⟨htiny, -⟩ := press_percent_iterate (s := s') (v := .ofBits 0x8000000000000014)
    (by decide) (by decide +kernel) (by decide +kernel) 3 fun k hk hk' => by
      obtain rfl | rfl | rfl : k = 1 ∨ k = 2 ∨ k = 3 := by omega
      all_goals decide +kernel
  have hfiveText : Display.text ((· / 100.0)^[1] 5.0) = "0.05" := by decide +kernel
  have htinyText : Display.text ((· / 100.0)^[3] (.ofBits 0x8000000000000014)) = "-0.0" := by
    decide +kernel
  refine ⟨fun m => ?_, ?_⟩
  · rw [Nat.add_comm, List.replicate_add, List.foldl_append, hlong (by decide +kernel),
      (hfive (Nat.le_refl 1)).1, hfiveText]
  · rw [(htiny (by decide)).1, htinyText]

end PocketCalculator.Session
