import Planfile.Parse.Context
import Planfile.Text.Digits

/-!
# Planfile — the meaning of statements about the project

The header starts the project. Statements in its body and beside the tasks change its settings.
-/

namespace Planfile

open Plan (Project RealFormat)

namespace Matcher

/-- The format of numbers that a statement describes: what stands before and behind negative
numbers, what separates thousands and what the fraction, and the number of its digits. -/
def realFormat (v : Values) : Matcher RealFormat := do
  let digits ← .take v (v.string 5)
  let fractionDigits ← .orFail (Text.Digits.count? digits) (.fractionDigitsExpected digits)
  return {
    signPrefix := ← .take v (v.string 1)
    signSuffix := ← .take v (v.string 2)
    thousandsSeparator := ← .take v (v.string 3)
    fractionSeparator := ← .take v (v.string 4)
    fractionDigits }

end Matcher

/-- What a statement about the project does; none of them has a value. -/
def ProjectAction.perform (v : Values) : ProjectAction → Matcher Unit
  | .header => do
    let p := Project.initial (← .take v (v.string 1)) (← .take v (v.string 2))
      (← .take v (v.string 3)) (← .take v (v.interval 4))
    modify fun c => { c with
      project := some p, property := none, scenario := none, scenarioIndex := 0 }
  | .copyright => do
    let text ← .take v (v.string 1)
    .modifySettings ({ · with copyright := some text })
  | .currency => do
    let text ← .take v (v.string 1)
    .modifySettings ({ · with currency := some text })
  | .currencyFormat => do
    let format ← .realFormat v
    .modifySettings ({ · with currencyFormat := some format })
  | .numberFormat => do
    let format ← .realFormat v
    .modifySettings ({ · with numberFormat := some format })
  | .dailyWorkingHours => do
    let hours ← .take v (v.number 1)
    .modifySettings ({ · with dailyWorkingHours := hours })
  | .yearlyWorkingDays => do
    let days ← .take v (v.number 1)
    .modifySettings ({ · with yearlyWorkingDays := days })
  | .now => do
    let date ← .take v (v.date 1)
    .modifySettings ({ · with now := some date })
  | .timeFormat => do
    let format ← .take v (v.string 1)
    .modifySettings ({ · with timeFormat := some format })
  | .shortTimeFormat => do
    let format ← .take v (v.string 1)
    .modifySettings ({ · with shortTimeFormat := some format })
  | .timezone => do
    let zone ← .take v (v.string 0)
    .modifySettings ({ · with timezone := some zone })
  | .timingResolution => do
    let seconds ← .take v (v.int 1)
    if seconds < 5 * 60 then .fail .timingTooFine
    else if 60 * 60 < seconds then .fail .timingTooCoarse
    else .modifySettings ({ · with scheduleGranularity := seconds })
  | .weekStartsMonday monday => .modifySettings ({ · with weekStartsMonday := monday })
  | .declareFlags =>
    .modifySettings fun s => { s with flags := Plan.withFlags s.flags (strings (v.list 1)) }
  | .vacation =>
    .modifySettings fun s => { s with vacations := s.vacations ++ intervals (v.list 2) }

end Planfile
