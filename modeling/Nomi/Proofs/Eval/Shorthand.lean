import Nomi.Proofs.Eval.Joining
import Nomi.Proofs.Eval.Simulation

/-!
# The shorthand says nothing new

An object's entry `{ key }` reads the variable of its name by itself, and `{ key: key }`
by the evaluation of a node.  The second nests one level deeper, and there is no other
difference between them, whatever functions carry them from where to where.
-/

namespace Nomi

def Conversion.longhand : Conversion where
  fill := .identifier
  time := .time
  name_time := rfl

/-- The store before a program runs holds no function with a body. -/
theorem converted_longhand_initial (input : List String) :
    (World.initial input).converted .longhand = .initial input := by
  with_unfolding_all rfl

/-- The variable of an entry's name is read either way, where the depth allows for it. -/
theorem suits_longhand (host : Host) : Conversion.longhand.Suits (· = .tooDeep) host host where
  ending := rfl
  time := .inl ⟨rfl, rfl⟩
  fill _ _ := .inr ⟨rfl, rfl⟩

/--
The shorthand of objects is sugar, everywhere in a program.

A program and its longhand, in which every entry `{ key }` is `{ key: key }`, show the same
when the longhand does not nest too deep: they write the same, leave the same input, fail
in the same way or give values of the same text, and leave the same names, constants and
texts of values in the global scope.
-/
theorem longhand_shows_same (host : Host) (program : Node) (input : List String)
    (h : (evaluateGlobally host program.longhand (.initial input)).1 ≠ .error .tooDeep) :
    ShowSame (evaluateGlobally host program (.initial input))
      (evaluateGlobally host program.longhand (.initial input)) := by
  have hconverted : evaluateGlobally host program.longhand (.initial input) =
      ((evaluateGlobally host program (.initial input)).1.map Conversion.longhand.value,
        (evaluateGlobally host program (.initial input)).2.converted .longhand) := by
    have houtcome := Conversion.outcome_converted (suits_longhand host) depthLimit
      Store.globalId program (.initial input)
    rw [converted_longhand_initial] at houtcome
    apply houtcome
    rintro failure hfailure rfl
    exact h hfailure
  rw [hconverted]
  exact showSame_converted .longhand _

/-- A function that writes an object of its parameter. -/
theorem longhand_shows_same_call :
    let program := fun value => Node.program .start
      [.function ⟨1, 1⟩ "f" ["k"] [.call ⟨1, 9⟩ (.identifier ⟨1, 9⟩ "print")
        [.object ⟨1, 15⟩ [.property ⟨1, 16⟩ "k" value]]],
      .call ⟨1, 20⟩ (.identifier ⟨1, 20⟩ "f") [.string ⟨1, 22⟩ "a"]]
    let one := program .absent
    let two := program (.identifier ⟨1, 16⟩ "k")
    parse "fn f(k)\x7bprint(\x7bk\x7d)\x7df(\"a\")" = .ok one ∧ one.longhand = two ∧
      (evaluateGlobally ⟨0, .cancels⟩ two (.initial [])).1 = .ok .null ∧
      ShowSame (evaluateGlobally ⟨0, .cancels⟩ one (.initial []))
        (evaluateGlobally ⟨0, .cancels⟩ one.longhand (.initial [])) := by
  intro program one two
  have hcut : tokenize "fn f(k)\x7bprint(\x7bk\x7d)\x7df(\"a\")" = .ok
      [⟨.fnWord, "fn", ⟨1, 1⟩⟩, ⟨.identifier, "f", ⟨1, 4⟩⟩, ⟨.openParen, "(", ⟨1, 5⟩⟩,
      ⟨.identifier, "k", ⟨1, 6⟩⟩, ⟨.closeParen, ")", ⟨1, 7⟩⟩, ⟨.openBrace, "\x7b", ⟨1, 8⟩⟩,
      ⟨.identifier, "print", ⟨1, 9⟩⟩, ⟨.openParen, "(", ⟨1, 14⟩⟩, ⟨.openBrace, "\x7b", ⟨1, 15⟩⟩,
      ⟨.identifier, "k", ⟨1, 16⟩⟩, ⟨.closeBrace, "\x7d", ⟨1, 17⟩⟩, ⟨.closeParen, ")", ⟨1, 18⟩⟩,
      ⟨.closeBrace, "\x7d", ⟨1, 19⟩⟩, ⟨.identifier, "f", ⟨1, 20⟩⟩, ⟨.openParen, "(", ⟨1, 21⟩⟩,
      ⟨.string, "a", ⟨1, 22⟩⟩, ⟨.closeParen, ")", ⟨1, 25⟩⟩, .endMark ⟨1, 26⟩] := by decide
  have hrun : (evaluateGlobally ⟨0, .cancels⟩ two (.initial [])).1 = .ok .null := by
    with_unfolding_all rfl
  have hnested : (evaluateGlobally ⟨0, .cancels⟩ one.longhand (.initial [])).1 ≠
      .error .tooDeep := by
    show (evaluateGlobally ⟨0, .cancels⟩ two (.initial [])).1 ≠ .error .tooDeep
    simp [hrun]
  exact ⟨parse_of_tokenize hcut rfl, rfl, hrun,
    longhand_shows_same ⟨0, .cancels⟩ one [] hnested⟩

end Nomi
