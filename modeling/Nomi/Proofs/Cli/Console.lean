import Nomi.Cli.Command
import Nomi.Proofs.Eval.Cutoff

/-!
# Runs on a console

A console holds the text that is still to be read and the text that has been printed.
It reads a line only when a run takes one, and prints each line when the run writes it.
What a run has of its lines, and what it has written, is at every moment what the console
has left and has printed.
-/

namespace Nomi

namespace Lines

/-- The first line of a text and what is behind it.  A line ends at a line feed, at a
carriage return, or at a carriage return with a line feed behind it. -/
def cutLine : List Char → List Char × List Char
  | [] => ([], [])
  | '\n' :: rest => ([], rest)
  | '\r' :: '\n' :: rest => ([], rest)
  | '\r' :: rest => ([], rest)
  | c :: rest => (c :: (cutLine rest).1, (cutLine rest).2)

/-- A text has lines if it is not empty, the first of which is cut off first. -/
theorem cut_unify_cutLine {text : List Char} (h : text ≠ []) :
    cut (· = '\n') (unify text) =
      (cutLine text).1 :: cut (· = '\n') (unify (cutLine text).2) := by
  fun_induction cutLine text with
  | case1 => exact absurd rfl h
  | case2 rest => simp [unify, cut]
  | case3 rest => simp [unify, cut]
  | case4 rest hnext => simp [unify, cut]
  | case5 c rest hfeed hreturned hreturn ih =>
      have hc : c ≠ '\n' := fun h => hfeed h
      have hunify : unify (c :: rest) = c :: unify rest := by simp_all [unify]
      simp only [hunify, cut, hc, decide_false]
      cases rest with
      | nil => rfl
      | cons next more =>
          rw [ih (List.cons_ne_nil next more)]
          rfl

theorem ofInput_ofList (text : List Char) :
    ofInput (String.ofList text) = (cut (· = '\n') (unify text)).map String.ofList := by
  rw [ofInput, String.toList_ofList]

theorem ofInput_cutLine {text : List Char} (h : text ≠ []) :
    ofInput (String.ofList text) =
      String.ofList (cutLine text).1 :: ofInput (String.ofList (cutLine text).2) := by
  rw [ofInput_ofList, ofInput_ofList, cut_unify_cutLine h, List.map_cons]

end Lines

namespace Cli

/-- The text that is still to be read, and the text that has been printed. -/
structure Console where
  stdin : List Char
  stdout : String

namespace Console

def read? (console : Console) : Option (String × Console) :=
  if console.stdin.isEmpty then none
  else
    let (line, rest) := Lines.cutLine console.stdin
    some (String.ofList line, { console with stdin := rest })

def print (console : Console) (line : String) : Console :=
  { console with stdout := console.stdout ++ line ++ "\n" }

/-- Whether a console has left to read what a world has of its input, and has printed what
the world has written. -/
structure InStep (console : Console) (world : World) : Prop where
  input : Lines.ofInput (String.ofList console.stdin) = world.input
  output : console.stdout = written world

/-- What a console does while a world changes: it reads the line that is taken, prints the
line that is written, and does nothing otherwise. -/
inductive Follows (before after : World) (console : Console) : Console → Prop
  | idle (hinput : after.input = before.input) (houtput : after.output = before.output) :
      Follows before after console console
  | read {line : String} {next : Console} (hinput : before.input = line :: after.input)
      (houtput : after.output = before.output) (hread : console.read? = some (line, next)) :
      Follows before after console next
  | print {line : String} (hinput : after.input = before.input)
      (houtput : after.output = before.output.push line) :
      Follows before after console (console.print line)

/-- Whether a console follows worlds from one to the next and is in step with each of
them. -/
inductive Attends : Console → List World → Console → Prop
  | last {console : Console} {world : World} (h : console.InStep world) :
      Attends console [world] console
  | next {console next last : Console} {before after : World} {worlds : List World}
      (h : console.InStep before) (hfollows : Follows before after console next)
      (hmore : Attends next (after :: worlds) last) :
      Attends console (before :: after :: worlds) last

variable {console : Console} {before after first last world : World} {worlds : List World}

theorem read?_cases (console : Console) :
    (console.stdin = [] ∧ console.read? = none) ∨
      ∃ line next, console.read? = some (line, next) ∧ next.stdout = console.stdout ∧
        Lines.ofInput (String.ofList console.stdin) =
          line :: Lines.ofInput (String.ofList next.stdin) := by
  unfold read?
  cases hstdin : console.stdin with
  | nil => exact .inl ⟨rfl, rfl⟩
  | cons c rest =>
      have hlines := Lines.ofInput_cutLine (List.cons_ne_nil c rest)
      exact .inr ⟨_, { console with stdin := (Lines.cutLine (c :: rest)).2 }, rfl, rfl, hlines⟩

/-- A console in step reads the line that the world takes. -/
theorem InStep.read {line : String} {rest : List String} (h : console.InStep world)
    (hinput : world.input = line :: rest) :
    ∃ next, console.read? = some (line, next) ∧ next.InStep { world with input := rest } := by
  rcases console.read?_cases with ⟨hstdin, _⟩ | ⟨found, next, hread, hstdout, hlines⟩
  · have hnone := h.input
    rw [hstdin, hinput] at hnone
    contradiction
  · have hsame := h.input
    rw [hlines, hinput, List.cons.injEq] at hsame
    refine ⟨next, by rw [hread, hsame.1], hsame.2, ?_⟩
    rw [hstdout, h.output]
    rfl

/-- A console in step with a world without input is at the end of its text. -/
theorem InStep.read?_eq_none (h : console.InStep world) (hinput : world.input = []) :
    console.read? = none := by
  rcases console.read?_cases with ⟨_, hnone⟩ | ⟨found, next, _, _, hlines⟩
  · exact hnone
  · have hsame := h.input
    rw [hlines, hinput] at hsame
    contradiction

theorem written_push (world : World) (line : String) :
    written { world with output := world.output.push line } = written world ++ line ++ "\n" := by
  simp only [written, Array.toList_push, List.map_append, String.join_append, String.append_assoc]
  rfl

theorem InStep.print (h : console.InStep world) (line : String) :
    (console.print line).InStep { world with output := world.output.push line } := by
  refine ⟨h.input, ?_⟩
  rw [written_push, ← h.output]
  rfl

/-- Whatever changes, a console in step goes on in step. -/
theorem InStep.follows (h : console.InStep before) (hchange : Change before after) :
    ∃ next, Follows before after console next ∧ next.InStep after := by
  cases hchange with
  | take hinput =>
      obtain ⟨next, hread, hnext⟩ := h.read hinput
      exact ⟨next, .read hinput rfl hread, hnext⟩
  | write line => exact ⟨console.print line, .print rfl rfl, h.print line⟩
  | _ => exact ⟨console, .idle rfl rfl, h.input, h.output⟩

/-- A console in step with the first of the moments of a run attends the run. -/
theorem InStep.attends (hpath : Path first worlds last) (h : console.InStep first) :
    ∃ final, Attends console worlds final ∧ final.InStep last := by
  induction hpath generalizing console with
  | stop world => exact ⟨console, .last h, h⟩
  | stay hmore ih =>
      obtain ⟨final, hattends, hfinal⟩ := ih h
      obtain ⟨rest, rfl⟩ := hmore.exists_cons
      exact ⟨final, .next h (.idle rfl rfl) hattends, hfinal⟩
  | step hchange hmore ih =>
      obtain ⟨next, hfollows, hnext⟩ := h.follows hchange
      obtain ⟨final, hattends, hfinal⟩ := ih hnext
      obtain ⟨rest, rfl⟩ := hmore.exists_cons
      exact ⟨final, .next h hfollows hattends, hfinal⟩

end Console

end Cli

end Nomi
