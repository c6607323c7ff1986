import Nomi.Proofs.Eval.Simulation

/-!
# Runs that never call the clock

The clock of a host shows only where a program calls `time`.  A run that never does shows
the same whatever its clock says.
-/

namespace Nomi

/-- The conversion of a run to one in which no function of the name `time` is built in. -/
def Conversion.withoutTime : Conversion where
  fill := fun _ _ => .absent
  time := .other "time"
  name_time := rfl

/-- How a run fails at a call of `time` where no such function is built in. -/
def Failure.noTime : Failure :=
  .fault (.notBuiltIn "time")

/-- Whether a run of a source calls `time`.  With another value under that name, which
cannot be called and is like it otherwise, the run gets as far as the first call. -/
def CallsTime (host : Host) (source : String) (input : List String) : Prop :=
  (step host source ((World.initial input).converted .withoutTime)).1 = .error .noTime

/-- Two hosts of the same ending do the same, apart from calls of `time`. -/
theorem suits_withoutTime {host other : Host} (h : host.ending = other.ending) :
    Conversion.withoutTime.Suits (· = .noTime) host other where
  ending := h
  time := .inr ⟨"time", rfl, rfl⟩
  fill _ _ := .inl rfl

section

variable {host other : Host} (hending : host.ending = other.ending) {source : String}
  {input : List String} (h : ¬ CallsTime other source input)

include hending h

/-- A run that never calls `time` goes on without it as with any clock. -/
theorem step_withoutTime :
    step other source ((World.initial input).converted .withoutTime) =
      ((run host source input).1.map Conversion.withoutTime.value,
        (run host source input).2.converted .withoutTime) := by
  unfold CallsTime at h
  unfold run
  unfold step at h ⊢
  cases hparse : parse source with
  | error error => rfl
  | ok program =>
      rw [hparse] at h
      have houtcome := Conversion.outcome_converted (suits_withoutTime hending) depthLimit
        Store.globalId program (.initial input)
      rw [Conversion.withoutTime, Node.filled_nothing] at houtcome
      apply houtcome
      rintro failure hfailure rfl
      exact h hfailure

/-- What shows of a run that never calls `time` does not depend on the clock. -/
theorem clock_immaterial : ShowSame (run host source input) (run other source input) := by
  have hhost := showSame_converted .withoutTime (run host source input)
  have hother := showSame_converted .withoutTime (run other source input)
  rw [← step_withoutTime hending h] at hhost
  rw [← step_withoutTime rfl h] at hother
  exact hhost.trans hother.symm

end

end Nomi
