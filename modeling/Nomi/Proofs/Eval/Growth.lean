import Nomi.Proofs.Eval.Moments
import Nomi.Proofs.Store.Growth

/-!
# Stores grow throughout a session

Every change that evaluation makes lets the store grow, so it grows between any
two moments of a session, within a step and from one step to another, and
whichever way the steps end.
-/

namespace Nomi

def stepMoments (host : Host) (source : String) : World → List World :=
  match parse source with
  | .ok program => moments host depthLimit Store.globalId program
  | .error _ => fun world => [world]

def sessionMoments (host : Host) : List String → World → List World
  | [], world => [world]
  | source :: sources, world =>
      stepMoments host source world ++ sessionMoments host sources (step host source world).2

theorem path_step (host : Host) (source : String) (world : World) :
    Path world (stepMoments host source world) (step host source world).2 := by
  unfold stepMoments step
  cases parse source with
  | error error => exact .stop world
  | ok program =>
      have hpath := Eval.traces_evaluate host depthLimit Store.globalId program world
      simp only [evaluateGlobally, Eval.outcome, Eval.after] at hpath ⊢
      cases hresult : evaluate host depthLimit Store.globalId program world with
      | ok value next =>
          rw [hresult] at hpath
          exact hpath
      | error failure next =>
          rw [hresult] at hpath
          exact hpath

theorem path_session (host : Host) (sources : List String) (world : World) :
    ∃ last, Path world (sessionMoments host sources world) last := by
  induction sources generalizing world with
  | nil => exact ⟨world, .stop world⟩
  | cons source rest ih =>
      obtain ⟨last, hlast⟩ := ih (step host source world).2
      exact ⟨last, (path_step host source world).append hlast⟩

/-- The world that each step leaves is among the moments, in the order of the
steps. -/
theorem session_sublist_moments (host : Host) (sources : List String) (world : World) :
    ((session host sources world).map (·.2)).Sublist (sessionMoments host sources world) := by
  induction sources generalizing world with
  | nil => exact List.nil_sublist _
  | cons source rest ih =>
      have hstep := List.singleton_sublist.2 (path_step host source world).last_mem
      exact hstep.append (ih (step host source world).2)

def World.Wrote (before after : World) : Prop :=
  ∃ written, after.output = before.output ++ written

/-- Whether a later world has the last of the lines that an earlier one had, and all of
its output. -/
structure World.Onward (before after : World) : Prop where
  input : after.input <:+ before.input
  output : before.Wrote after

theorem World.Onward.refl (world : World) : world.Onward world :=
  ⟨List.suffix_refl _, #[], by simp⟩

theorem World.Onward.trans {first second third : World} (h : first.Onward second)
    (hmore : second.Onward third) : first.Onward third := by
  obtain ⟨one, hone⟩ := h.output
  obtain ⟨two, htwo⟩ := hmore.output
  exact ⟨hmore.input.trans h.input, one ++ two, by rw [htwo, hone, Array.append_assoc]⟩

theorem Change.onward {before after : World} (h : Change before after) : before.Onward after := by
  cases h with
  | @take line rest hinput =>
      refine ⟨?_, #[], by simp⟩
      rw [hinput]
      exact List.suffix_cons line rest
  | write line => exact ⟨List.suffix_refl _, #[line], Array.push_eq_append⟩
  | _ => exact ⟨List.suffix_refl _, #[], by simp⟩

theorem Path.onward {first last : World} {worlds : List World} (h : Path first worlds last) :
    ∀ world ∈ worlds, first.Onward world :=
  h.of_mem World.Onward .refl World.Onward.trans Change.onward

theorem onward_step (host : Host) (source : String) (world : World) :
    world.Onward (step host source world).2 :=
  (path_step host source world).onward _ (path_step host source world).last_mem

theorem Change.grows {before after : World} (h : Change before after) :
    before.store.Grows after.store := by
  cases h with
  | create parent => exact Store.grows_create _ _
  | declare hdeclare => exact Store.grows_declare hdeclare
  | assign hassign => exact Store.grows_assign hassign
  | overwrite id name value => exact Store.grows_overwrite _ _ _ _
  | take | write => exact .refl _

def World.Grows (before after : World) : Prop :=
  before.store.Grows after.store

variable {first last : World} {worlds : List World}

theorem Path.grows (h : Path first worlds last) : ∀ world ∈ worlds, first.Grows world :=
  h.of_mem World.Grows (fun world => .refl world.store) Store.Grows.trans Change.grows

theorem Path.keeps (h : Path first worlds last) (hfirst : first.store.WellFormed) :
    worlds.Pairwise fun before after => before.store.Keeps after.store := by
  have hpairwise :=
    h.pairwise World.Grows (fun world => .refl world.store) Store.Grows.trans Change.grows
  refine hpairwise.imp_of_mem ?_
  intro before after hbefore _ hgrows
  exact (hgrows (h.grows before hbefore hfirst).1).2

/--
The moments of a session lead from change to change and past the end of every
step.  What stores keep, holds between any two of them, and at each one all
constants have values and what was declared from the start has its own.
-/
theorem session_keeps (host : Host) (sources : List String) (input : List String) :
    (∃ last, Path (.initial input) (sessionMoments host sources (.initial input)) last) ∧
      ((session host sources (.initial input)).map (·.2)).Sublist
        (sessionMoments host sources (.initial input)) ∧
      (sessionMoments host sources (.initial input)).Pairwise
        (fun before after => before.store.Keeps after.store) ∧
      ∀ world ∈ sessionMoments host sources (.initial input), world.store.WellFormed ∧
        ∀ entry ∈ Store.predeclared,
          world.store.value? Store.globalId entry.1 = some entry.2 ∧
            world.store.holdsConstant Store.globalId entry.1 = true := by
  obtain ⟨last, hpath⟩ := path_session host sources (.initial input)
  refine ⟨⟨last, hpath⟩, session_sublist_moments host sources _,
    hpath.keeps Store.wellFormed_initial, ?_⟩
  intro world hmem
  have hgrows := hpath.grows world hmem Store.wellFormed_initial
  exact ⟨hgrows.1, hgrows.2.predeclared⟩

end Nomi
