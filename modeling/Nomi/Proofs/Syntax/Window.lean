import Nomi.Proofs.Syntax.Cursor
import Nomi.Proofs.Syntax.Reading
import Nomi.Proofs.Syntax.Rounds

/-!
# Parsers in a window

Two runs are compared from cursors that show the same tokens up to a last place.  The
second run does what the first one does as long as this is not past that place; after
that nothing is said of it.  There is one rule for each way of composing parsers.

The bounds that loops carry differ in the two runs.  Each round takes a token, so both
are large enough.
-/

namespace Nomi

/-- Two cursors that show the same tokens up to a place. -/
structure Window where
  one : Cursor
  two : Cursor
  last : Nat
  one_ended : one.Ended
  two_ended : two.Ended
  shown : ∀ place ≤ last, one.shown[place]? = two.shown[place]?

namespace Window

open Nomi.Parser

variable {w : Window} {start later : Nat}

theorem le_length_two (w : Window) (hlast : start ≤ w.last) (h : start ≤ w.one.ahead.length) :
    start ≤ w.two.ahead.length := by
  have hshown := w.shown start hlast
  rw [Cursor.shown_eq_peek h] at hshown
  have hlt := (List.getElem?_eq_some_iff.1 hshown.symm).1
  rw [Cursor.length_shown] at hlt
  exact Nat.le_of_lt_succ hlt

theorem peek_eq (w : Window) (hlast : start ≤ w.last) (h : start ≤ w.one.ahead.length) :
    (w.two.after start).peek = (w.one.after start).peek := by
  have hshown := w.shown start hlast
  rw [Cursor.shown_eq_peek h, Cursor.shown_eq_peek (w.le_length_two hlast h)] at hshown
  exact (Option.some.inj hshown).symm

theorem atEnd_eq (w : Window) (hlast : start ≤ w.last) (h : start ≤ w.one.ahead.length) :
    (w.two.after start).atEnd = (w.one.after start).atEnd := by
  rw [Cursor.atEnd, w.peek_eq hlast h, Cursor.atEnd]

/-! ## Two runs -/

variable {α β : Type}

/-- How a first run from a place ends, and that a second one ends so too, unless the first
went past the last place.  Where the first one ends well, it is known to stand no earlier
than the least place. -/
inductive Foreseen (w : Window) (start : Nat) (least : α → Nat) :
    EStateM.Result SyntaxError Cursor α → EStateM.Result SyntaxError Cursor α → Prop
  | ok {value : α} {stop : Nat} {other : EStateM.Result SyntaxError Cursor α}
      (hstart : start ≤ stop) (hleast : least value ≤ stop) (hstop : stop ≤ w.one.ahead.length)
      (hother : stop ≤ w.last → other = .ok value (w.two.after stop)) :
      Foreseen w start least (.ok value (w.one.after stop)) other
  | error {error : SyntaxError} {stop : Nat} {other : EStateM.Result SyntaxError Cursor α}
      (hstart : start ≤ stop) (hstop : stop ≤ w.one.ahead.length)
      (hother : stop ≤ w.last → other = .error error (w.two.after stop)) :
      Foreseen w start least (.error error (w.one.after stop)) other

/-- Whether what a first parser does from a place foresees what a second one does. -/
def Foresees (w : Window) (first second : Parser α) (start : Nat) (least : α → Nat) : Prop :=
  start ≤ w.one.ahead.length →
    w.Foreseen start least (first (w.one.after start)) (second (w.two.after start))

abbrev Steps (w : Window) (first second : Parser α) (start : Nat) : Prop :=
  w.Foresees first second start fun _ => start + 1

/-- Whether a first parser foresees a second one from every place on from a first one. -/
def Follows (w : Window) (first second : Parser α) (start : Nat) : Prop :=
  ∀ place, start ≤ place → w.Steps first second place

theorem Follows.mono {first second : Parser α} (h : w.Follows first second start)
    (hlater : start ≤ later) : w.Follows first second later :=
  fun place hplace => h place (Nat.le_trans hlater hplace)

variable {least : α → Nat} {final : β → Nat}

/-- A run that begins later is one that began earlier, and what the second one does is of
interest only if the first begins in time. -/
theorem Foreseen.of_later {result other another : EStateM.Result SyntaxError Cursor α}
    (h : w.Foreseen later least result another) (hlater : start ≤ later)
    (hsame : later ≤ w.last → other = another) : w.Foreseen start least result other := by
  cases h with
  | ok hstart hleast hstop hother =>
      refine .ok (Nat.le_trans hlater hstart) hleast hstop fun hlast => ?_
      rw [hsame (Nat.le_trans hstart hlast), hother hlast]
  | error hstart hstop hother =>
      refine .error (Nat.le_trans hlater hstart) hstop fun hlast => ?_
      rw [hsame (Nat.le_trans hstart hlast), hother hlast]

/-- Parsers may be replaced by others that do the same at the cursors of the runs. -/
theorem Foresees.congr {first second another other : Parser α}
    (h : w.Foresees another other start least)
    (hone : first (w.one.after start) = another (w.one.after start))
    (htwo : start ≤ w.last → start ≤ w.one.ahead.length →
      second (w.two.after start) = other (w.two.after start)) :
    w.Foresees first second start least := by
  intro hlength
  rw [hone]
  exact (h hlength).of_later (Nat.le_refl _) fun hlast => htwo hlast hlength

theorem Foresees.weaken {first second : Parser α} {lower : α → Nat}
    (h : w.Foresees first second start least) (hlower : ∀ value, lower value ≤ least value) :
    w.Foresees first second start lower := by
  intro hlength
  have hone := h hlength
  generalize first (w.one.after start) = left at hone ⊢
  cases hone with
  | ok hstart hleast hstop hother =>
      exact .ok hstart (Nat.le_trans (hlower _) hleast) hstop hother
  | error hstart hstop hother => exact .error hstart hstop hother

theorem foresees_pure {value : α} (h : least value ≤ start) :
    w.Foresees (pure value) (pure value) start least :=
  fun hlength => .ok (Nat.le_refl _) h hlength fun _ => rfl

theorem foresees_throw (error : SyntaxError) :
    w.Foresees (throw error) (throw error) start least :=
  fun hlength => .error (Nat.le_refl _) hlength fun _ => rfl

theorem foresees_bind {first second : Parser α} {rest other : α → Parser β}
    (hfirst : w.Foresees first second start least)
    (hrest : ∀ value later, start ≤ later → least value ≤ later →
      w.Foresees (rest value) (other value) later final) :
    w.Foresees (first >>= rest) (second >>= other) start final := by
  intro hlength
  have hone := hfirst hlength
  rw [bind_apply, bind_apply]
  generalize first (w.one.after start) = left at hone ⊢
  generalize second (w.two.after start) = right at hone ⊢
  cases hone with
  | ok hstart hleast hstop hother =>
      apply (hrest _ _ hstart hleast hstop).of_later hstart
      intro hlast
      rw [hother hlast]
  | error hstart hstop hother =>
      refine .error hstart hstop fun hlast => ?_
      rw [hother hlast]

theorem Steps.bind {first second : Parser α} {rest other : α → Parser β}
    (h : w.Steps first second start)
    (hrest : ∀ value place, start < place → w.Foresees (rest value) (other value) place final) :
    w.Foresees (first >>= rest) (second >>= other) start final :=
  foresees_bind h fun value place _ hplace => hrest value place hplace

/-! ## Single tokens -/

def Shows (w : Window) (start : Nat) (token : Token) : Prop :=
  (w.one.after start).peek = token

theorem peek_bind (rest : Token → Parser α) (cursor : Cursor) :
    (peek >>= rest) cursor = rest cursor.peek cursor :=
  rfl

theorem foresees_peek {rest other : Token → Parser α}
    (h : ∀ token, w.Shows start token → w.Foresees (rest token) (other token) start least) :
    w.Foresees (peek >>= rest) (peek >>= other) start least := by
  refine (h _ rfl).congr rfl fun hlast hlength => ?_
  show other (w.two.after start).peek _ = _
  rw [w.peek_eq hlast hlength]

theorem steps_advance_of_lt (hwithin : start < w.one.ahead.length) :
    w.Steps advance advance start := by
  intro hlength
  have hone : advance (w.one.after start) =
      .ok (w.one.after start).peek (w.one.after (start + 1)) := by
    rw [← Cursor.next_after hwithin]
    rfl
  rw [hone]
  refine .ok (Nat.le_succ start) (Nat.le_refl _) hwithin fun hlast => ?_
  rw [← Cursor.next_after (w.le_length_two hlast hwithin), ← w.peek_eq (by omega) hlength]
  rfl

theorem steps_advance {token : Token} {kind : Token.Kind} (htoken : w.Shows start token)
    (hkind : token.kind = kind) (hmark : kind ≠ .endOfSource) :
    w.Steps advance advance start := by
  intro hlength
  have hend : Cursor.isEnd token = false := by simpa [Cursor.isEnd, hkind] using hmark
  have hwithin : start < w.one.ahead.length := by
    rcases Nat.lt_or_eq_of_le hlength with hlt | heq
    · exact hlt
    · have hatEnd := (w.one_ended.atEnd_after hlength).2 heq
      rw [Cursor.atEnd, htoken, hend] at hatEnd
      contradiction
  exact steps_advance_of_lt hwithin hlength

/-- Any token may be taken; at the end mark both cursors stay. -/
theorem foresees_advance : w.Foresees advance advance start fun _ => start := by
  intro hlength
  rcases Nat.lt_or_eq_of_le hlength with hwithin | rfl
  · exact (steps_advance_of_lt hwithin).weaken (fun _ => Nat.le_succ start) hlength
  · have hone : advance (w.one.after w.one.ahead.length) =
        .ok (w.one.after w.one.ahead.length).peek (w.one.after w.one.ahead.length) := by
      rw [advance, Cursor.next_after_length]
    rw [hone]
    refine .ok (Nat.le_refl _) (Nat.le_refl _) hlength fun hlast => ?_
    have hle := w.le_length_two hlast hlength
    have hend := (w.one_ended.atEnd_after hlength).2 rfl
    rw [← w.atEnd_eq hlast hlength, w.two_ended.atEnd_after hle] at hend
    rw [← w.peek_eq hlast hlength, hend, advance, Cursor.next_after_length]

theorem foresees_unexpected :
    w.Foresees (unexpected : Parser α) unexpected start least :=
  foresees_peek fun _ _ => foresees_throw _

/-- A question about the token at the cursor is answered alike. -/
theorem foresees_ask {ask : Cursor → Bool}
    (hask : ∀ one two : Cursor, two.peek = one.peek → ask two = ask one)
    {yes no another other : Parser α}
    (hyes : ask (w.one.after start) = true → w.Foresees yes another start least)
    (hno : w.Foresees no other start least) :
    w.Foresees (get >>= fun cursor => if ask cursor then yes else no)
      (get >>= fun cursor => if ask cursor then another else other) start least := by
  have hsplit : w.Foresees (if ask (w.one.after start) then yes else no)
      (if ask (w.one.after start) then another else other) start least := by
    split
    · next h => exact hyes h
    · exact hno
  refine hsplit.congr rfl fun hlast hlength => ?_
  show (if ask (w.two.after start) then another else other) _ = _
  rw [hask _ _ (w.peek_eq hlast hlength)]

theorem foresees_check (kind : Token.Kind) {yes no another other : Parser α}
    (hyes : ∀ token, w.Shows start token → token.kind = kind →
      w.Foresees yes another start least)
    (hno : w.Foresees no other start least) :
    w.Foresees (get >>= fun cursor => if cursor.check kind then yes else no)
      (get >>= fun cursor => if cursor.check kind then another else other) start least := by
  refine foresees_ask (fun one two hpeek => ?_) (fun h => hyes _ rfl (of_decide_eq_true h)) hno
  rw [Cursor.check, hpeek, Cursor.check]

theorem foresees_checkOperator (symbols : List String) {yes no another other : Parser α}
    (hyes : ∀ token, w.Shows start token → token.kind = .operator →
      w.Foresees yes another start least)
    (hno : w.Foresees no other start least) :
    w.Foresees (get >>= fun cursor => if cursor.checkOperator symbols then yes else no)
      (get >>= fun cursor => if cursor.checkOperator symbols then another else other)
      start least := by
  refine foresees_ask (fun one two hpeek => ?_) (fun h => ?_) hno
  · rw [Cursor.checkOperator, Cursor.check, hpeek, Cursor.checkOperator, Cursor.check]
  · rw [Cursor.checkOperator, Bool.and_eq_true] at h
    exact hyes _ rfl (of_decide_eq_true h.1)

theorem steps_expect {kind : Token.Kind} (hkind : kind ≠ .endOfSource)
    (expectation : Expectation) :
    w.Steps (expect kind expectation) (expect kind expectation) start := by
  refine foresees_peek fun token htoken => ?_
  split
  · next heq => exact steps_advance htoken heq hkind
  · exact foresees_throw _

/-- A token that ends what has been read. -/
theorem foresees_closing {kind : Token.Kind} (hkind : kind ≠ .endOfSource)
    (expectation : Expectation) {value : α} (h : least value ≤ start + 1) :
    w.Foresees (expect kind expectation >>= fun _ => pure value)
      (expect kind expectation >>= fun _ => pure value) start least := by
  apply (steps_expect hkind expectation).bind
  exact fun _ place hplace => foresees_pure (Nat.le_trans h hplace)

/-- What follows on a token that may be taken is one of two. -/
theorem accept_bind (kind : Token.Kind) (rest : Option Token → Parser α) :
    accept kind >>= rest = get >>= fun cursor =>
      if cursor.check kind then advance >>= fun token => rest (some token) else rest none := by
  funext cursor
  have hbranches : ∀ found : Bool,
      ((if found then some <$> advance else pure none : Parser (Option Token)) >>= rest) cursor =
        (if found then advance >>= fun token => rest (some token) else rest none) cursor := by
    intro found
    cases found <;> rfl
  exact hbranches (cursor.check kind)

theorem foresees_accept {kind : Token.Kind} (hkind : kind ≠ .endOfSource)
    {rest other : Option Token → Parser α}
    (hsome : ∀ token place, start < place →
      w.Foresees (rest (some token)) (other (some token)) place least)
    (hnone : w.Foresees (rest none) (other none) start least) :
    w.Foresees (accept kind >>= rest) (accept kind >>= other) start least := by
  rw [accept_bind, accept_bind]
  refine foresees_check kind (fun token htoken hfound => ?_) hnone
  exact (steps_advance htoken hfound hkind).bind hsome

/-! ## Repetition -/

theorem foresees_remaining {rest other : Nat → Parser α}
    (h : w.Foresees (rest (w.one.ahead.length - start)) (other (w.two.ahead.length - start))
      start least) :
    w.Foresees (remaining >>= rest) (remaining >>= other) start least := by
  refine h.congr ?_ fun _ _ => ?_
  · show rest (w.one.after start).ahead.length _ = _
    rw [Cursor.length_ahead_after]
  · show other (w.two.after start).ahead.length _ = _
    rw [Cursor.length_ahead_after]

theorem foresees_standsAt (kind : Token.Kind) {yes no another other : Parser α}
    (hyes : ((w.one.after start).atEnd || (w.one.after start).check kind) = true →
      w.Foresees yes another start least)
    (hno : w.Foresees no other start least) :
    w.Foresees (standsAt kind >>= fun stands => if stands then yes else no)
      (standsAt kind >>= fun stands => if stands then another else other) start least := by
  refine foresees_ask (fun one two hpeek => ?_) hyes hno
  rw [Cursor.atEnd, Cursor.check, hpeek, Cursor.atEnd, Cursor.check]

theorem standsAt_atEnd (kind : Token.Kind) {yes no : Parser α} {cursor : Cursor}
    (hend : cursor.atEnd = true) :
    (standsAt kind >>= fun stands => if stands then yes else no) cursor = yes cursor := by
  show (if cursor.atEnd || cursor.check kind then yes else no) cursor = _
  rw [hend]
  rfl

/-- Whether two bounds are not exceeded from a place on, if every round takes a token. -/
def Enough (w : Window) (rounds more start : Nat) : Prop :=
  w.one.ahead.length ≤ start + rounds ∧ w.two.ahead.length ≤ start + more

theorem Enough.mono {rounds more : Nat} (h : w.Enough rounds more start) (hlater : start ≤ later) :
    w.Enough rounds more later :=
  ⟨Nat.le_trans h.1 (by omega), Nat.le_trans h.2 (by omega)⟩

theorem enough_remaining (w : Window) (start : Nat) :
    w.Enough (w.one.ahead.length - start) (w.two.ahead.length - start) start :=
  ⟨by omega, by omega⟩

theorem enough_of_le {rounds more : Nat} (hone : w.one.ahead.length ≤ rounds)
    (htwo : w.two.ahead.length ≤ more) : w.Enough rounds more 0 :=
  ⟨by omega, by omega⟩

/-- Two families of loops with bounds of their own.  At the end mark both do the same
whatever the bounds are, and before it each has a round left. -/
theorem foresees_family {ι : Type} {loop twin : Nat → ι → Parser α} {final : ι → Parser α}
    {low : Nat} (least : Nat → α → Nat)
    (hloop : ∀ cursor : Cursor, cursor.atEnd = true → ∀ rounds i,
      loop rounds i cursor = final i cursor)
    (htwin : ∀ cursor : Cursor, cursor.atEnd = true → ∀ rounds i,
      twin rounds i cursor = final i cursor)
    (hfinal : ∀ start i, w.Foresees (final i) (final i) start (least start))
    (hstep : ∀ rounds more start i, low ≤ start → w.Enough rounds more (start + 1) →
      (∀ later i, start < later → w.Foresees (loop rounds i) (twin more i) later (least later)) →
      w.Foresees (loop (rounds + 1) i) (twin (more + 1) i) start (least start))
    (rounds more start : Nat) (i : ι) (hlow : low ≤ start) (henough : w.Enough rounds more start) :
    w.Foresees (loop rounds i) (twin more i) start (least start) := by
  have hatEnd : ∀ rounds more start i, (w.one.after start).atEnd = true →
      w.Foresees (loop rounds i) (twin more i) start (least start) := by
    intro rounds more start i hend
    refine (hfinal start i).congr (hloop _ hend rounds i) fun hlast hlength => ?_
    exact htwin _ ((w.atEnd_eq hlast hlength).trans hend) more i
  induction rounds generalizing more start i with
  | zero =>
      intro hlength
      have hend := (w.one_ended.atEnd_after hlength).2 (Nat.le_antisymm hlength henough.1)
      exact hatEnd 0 more start i hend hlength
  | succ rounds ih =>
      obtain ⟨hone, htwo⟩ := henough
      cases more with
      | succ more =>
          apply hstep rounds more start i hlow ⟨by omega, by omega⟩
          exact fun later j hlater => ih more later j (by omega) ⟨by omega, by omega⟩
      | zero =>
          -- The second run is at its end, so either both are or the first is past the last place.
          by_cases hend : (w.one.after start).atEnd = true
          · exact hatEnd (rounds + 1) 0 start i hend
          · have hround : w.Foresees (loop (rounds + 1) i) (twin 1 i) start (least start) := by
              apply hstep rounds 0 start i hlow ⟨by omega, by omega⟩
              exact fun later j hlater => ih 0 later j (by omega) ⟨by omega, by omega⟩
            refine hround.congr rfl fun hlast hlength => ?_
            have hle := w.le_length_two hlast hlength
            have htwoEnd := (w.two_ended.atEnd_after hle).2 (Nat.le_antisymm hle htwo)
            rw [w.atEnd_eq hlast hlength] at htwoEnd
            contradiction

/-- Two loops with bounds of their own. -/
theorem foresees_rounds {loop twin : Nat → Parser α} {final : Parser α} {low : Nat}
    (least : Nat → α → Nat)
    (hloop : ∀ cursor : Cursor, cursor.atEnd = true → ∀ rounds, loop rounds cursor = final cursor)
    (htwin : ∀ cursor : Cursor, cursor.atEnd = true → ∀ rounds, twin rounds cursor = final cursor)
    (hfinal : ∀ start, w.Foresees final final start (least start))
    (hstep : ∀ rounds more start, low ≤ start → w.Enough rounds more (start + 1) →
      (∀ later, start < later → w.Foresees (loop rounds) (twin more) later (least later)) →
      w.Foresees (loop (rounds + 1)) (twin (more + 1)) start (least start))
    (rounds more start : Nat) (hlow : low ≤ start) (henough : w.Enough rounds more start) :
    w.Foresees (loop rounds) (twin more) start (least start) := by
  let family (loop : Nat → Parser α) (rounds : Nat) (_ : Unit) : Parser α := loop rounds
  have hfamily : w.Foresees (family loop rounds ()) (family twin more ()) start (least start) := by
    refine foresees_family least (fun cursor hend rounds _ => hloop cursor hend rounds)
      (fun cursor hend rounds _ => htwin cursor hend rounds) (fun start _ => hfinal start) ?_
      rounds more start () hlow henough
    intro rounds more start i hlow henough ih
    exact hstep rounds more start hlow henough fun later hlater => ih later () hlater
  exact hfamily

section

variable {item twin : Parser α}

theorem itemsUpTo_atEnd (kind : Token.Kind) (item : Parser α) (cursor : Cursor)
    (hend : cursor.atEnd = true) (rounds : Nat) :
    itemsUpTo kind item rounds cursor = (pure [] : Parser (List α)) cursor := by
  cases rounds with
  | zero => rfl
  | succ rounds => exact standsAt_atEnd kind hend

theorem foresees_itemsRound (kind : Token.Kind) {loop other : Parser (List α)}
    (h : w.Steps item twin start)
    (hloop : ∀ later, start < later → w.Foresees loop other later fun _ => later) :
    w.Foresees (itemsRound kind item loop) (itemsRound kind twin other) start fun _ => start := by
  refine foresees_standsAt kind (fun _ => foresees_pure (Nat.le_refl _)) ?_
  apply h.bind
  intro first next hnext
  apply foresees_bind (hloop next hnext)
  intro rest last hlast _
  exact foresees_pure (by omega)

theorem foresees_itemsUpTo (kind : Token.Kind) {rounds more : Nat} (h : w.Follows item twin start)
    (henough : w.Enough rounds more start) :
    w.Foresees (itemsUpTo kind item rounds) (itemsUpTo kind twin more) start fun _ => start := by
  refine foresees_rounds (fun start _ => start) (itemsUpTo_atEnd kind item)
    (itemsUpTo_atEnd kind twin) (fun start => foresees_pure (Nat.le_refl start)) ?_ rounds more
    start (Nat.le_refl _) henough
  exact fun _ _ place hplace _ ih => foresees_itemsRound kind (h place hplace) ih

theorem foresees_itemsUntil (kind : Token.Kind) (h : w.Follows item twin start) :
    w.Foresees (itemsUntil kind item) (itemsUntil kind twin) start fun _ => start :=
  foresees_remaining (foresees_itemsUpTo kind h (w.enough_remaining start))

theorem commaItemsUpTo_atEnd (kind : Token.Kind) (item : Parser α) (cursor : Cursor)
    (hend : cursor.atEnd = true) (rounds : Nat) :
    commaItemsUpTo kind item rounds cursor = (pure [] : Parser (List α)) cursor := by
  cases rounds with
  | zero => rfl
  | succ rounds => exact standsAt_atEnd kind hend

theorem foresees_commaItemsRound (kind : Token.Kind) {loop other : Parser (List α)}
    (h : w.Steps item twin start)
    (hloop : ∀ later, start < later → w.Foresees loop other later fun _ => later) :
    w.Foresees (commaItemsRound kind item loop) (commaItemsRound kind twin other) start
      fun _ => start := by
  refine foresees_standsAt kind (fun _ => foresees_pure (Nat.le_refl _)) ?_
  apply h.bind
  intro first next hnext
  refine foresees_accept (by decide) (fun comma behind hbehind => ?_) (foresees_pure (by omega))
  apply foresees_bind (hloop behind (by omega))
  intro rest last hlast _
  exact foresees_pure (by omega)

theorem foresees_commaItemsUpTo (kind : Token.Kind) {rounds more : Nat}
    (h : w.Follows item twin start) (henough : w.Enough rounds more start) :
    w.Foresees (commaItemsUpTo kind item rounds) (commaItemsUpTo kind twin more) start
      fun _ => start := by
  refine foresees_rounds (fun start _ => start) (commaItemsUpTo_atEnd kind item)
    (commaItemsUpTo_atEnd kind twin) (fun start => foresees_pure (Nat.le_refl start)) ?_ rounds more
    start (Nat.le_refl _) henough
  exact fun _ _ place hplace _ ih => foresees_commaItemsRound kind (h place hplace) ih

theorem foresees_commaItemsUntil (kind : Token.Kind) (h : w.Follows item twin start) :
    w.Foresees (commaItemsUntil kind item) (commaItemsUntil kind twin) start fun _ => start :=
  foresees_remaining (foresees_commaItemsUpTo kind h (w.enough_remaining start))

theorem furtherUpTo_atEnd (item : Parser α) (cursor : Cursor) (hend : cursor.atEnd = true)
    (rounds : Nat) : furtherUpTo item rounds cursor = (pure [] : Parser (List α)) cursor := by
  cases rounds with
  | zero => rfl
  | succ rounds =>
      rw [furtherUpTo, accept_bind]
      show (if cursor.check .comma then _ else pure [] : Parser (List α)) cursor = _
      rw [Cursor.check, kind_of_isEnd hend]
      rfl

theorem foresees_furtherRound {loop other : Parser (List α)}
    (h : w.Follows item twin (start + 1))
    (hloop : ∀ later, start < later → w.Foresees loop other later fun _ => later) :
    w.Foresees (furtherRound item loop) (furtherRound twin other) start fun _ => start := by
  refine foresees_accept (by decide) (fun comma behind hbehind => ?_)
    (foresees_pure (Nat.le_refl _))
  apply (h behind hbehind).bind
  intro first next hnext
  apply foresees_bind (hloop next (by omega))
  intro rest last hlast _
  exact foresees_pure (by omega)

theorem foresees_furtherUpTo {rounds more : Nat} (h : w.Follows item twin start)
    (henough : w.Enough rounds more start) :
    w.Foresees (furtherUpTo item rounds) (furtherUpTo twin more) start fun _ => start := by
  refine foresees_rounds (fun start _ => start) (furtherUpTo_atEnd item) (furtherUpTo_atEnd twin)
    (fun start => foresees_pure (Nat.le_refl start)) ?_ rounds more start (Nat.le_refl _) henough
  exact fun _ _ place hplace _ ih => foresees_furtherRound (h.mono (Nat.le_succ_of_le hplace)) ih

theorem steps_separated (h : w.Follows item twin start) :
    w.Steps (separated item) (separated twin) start := by
  apply (h start (Nat.le_refl _)).bind
  intro first place hplace
  apply foresees_remaining
  apply foresees_bind
    (foresees_furtherUpTo (h.mono (Nat.le_of_lt hplace)) (w.enough_remaining place))
  intro rest last hlast _
  exact foresees_pure (by omega)

/-- What a step takes: nothing, if there is none, and otherwise a token or more. -/
abbrev StepsOn (w : Window) (first second : Parser (Option α)) (start : Nat) : Prop :=
  w.Foresees first second start fun next => next.elim start fun _ => start + 1

def Ends (step? : α → Parser (Option α)) : Prop :=
  ∀ cursor : Cursor, cursor.atEnd = true → ∀ value,
    step? value cursor = (pure none : Parser (Option α)) cursor

theorem extendUpTo_atEnd {step? : α → Parser (Option α)} (hstep : Ends step?) (cursor : Cursor)
    (hend : cursor.atEnd = true) (rounds : Nat) (value : α) :
    extendUpTo step? rounds value cursor = (pure value : Parser α) cursor := by
  cases rounds with
  | zero => rfl
  | succ rounds =>
      rw [extendUpTo, bind_apply, hstep cursor hend value]
      rfl

section

variable {step? other? : α → Parser (Option α)}

theorem foresees_extendRound {loop other : α → Parser α} {value : α}
    (h : w.StepsOn (step? value) (other? value) start)
    (hloop : ∀ later value, start < later → w.Foresees (loop value) (other value) later
      fun _ => later) :
    w.Foresees (extendRound step? loop value) (extendRound other? other value) start
      fun _ => start := by
  apply foresees_bind h
  intro next behind _ hbehind
  cases next with
  | none => exact foresees_pure hbehind
  | some next =>
      have hnext : start < behind := hbehind
      exact (hloop behind next hnext).weaken fun _ => Nat.le_of_lt hnext

theorem foresees_extendUpTo {rounds more : Nat}
    (h : ∀ later value, start ≤ later → w.StepsOn (step? value) (other? value) later)
    (hone : Ends step?) (htwo : Ends other?) (henough : w.Enough rounds more start) (value : α) :
    w.Foresees (extendUpTo step? rounds value) (extendUpTo other? more value) start
      fun _ => start := by
  refine foresees_family (fun start _ => start) (extendUpTo_atEnd hone) (extendUpTo_atEnd htwo)
    (fun start _ => foresees_pure (Nat.le_refl start)) ?_ rounds more start value (Nat.le_refl _)
    henough
  exact fun _ _ later value hlater _ ih => foresees_extendRound (h later value hlater) ih

theorem steps_extend (hfirst : w.Steps item twin start)
    (hstep : ∀ later value, start < later → w.StepsOn (step? value) (other? value) later)
    (hone : Ends step?) (htwo : Ends other?) :
    w.Steps (extend item step?) (extend twin other?) start := by
  apply hfirst.bind
  intro value place hplace
  have hlater : ∀ later value, place ≤ later → w.StepsOn (step? value) (other? value) later :=
    fun later value hlater => hstep later value (Nat.lt_of_lt_of_le hplace hlater)
  apply foresees_remaining
  exact (foresees_extendUpTo hlater hone htwo (w.enough_remaining place) value).weaken
    fun _ => hplace

end

end

end Window

end Nomi
