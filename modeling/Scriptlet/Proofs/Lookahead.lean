import Scriptlet.Proofs.Partition

namespace Scriptlet
namespace Lexer

/-!
# Looking ahead

A token can be looked at before it is taken, as often as one likes.  However looking and taking are
mixed, all that is seen are the results of taking alone, in their order: what was looked at is seen
again until it is taken, nothing else is seen twice, and nothing is left out.

A fault cannot be kept.  Whoever looks ahead and meets one has taken it, so the count of what has
been taken goes by what was answered and not by the calls alone.  What carries the proof is where a
lexer stands after some calls: either behind what has been taken, or one token further with that
token at hand.
-/

/-! ## Taking alone -/

/-- What a call answers, and the lexer after it. -/
def ask (lexer : Lexer) : Call → Except SyntaxFault Token × Lexer
  | .next => answered (Lexer.next lexer)
  | .peek => answered (Lexer.peek lexer)

/-- The lexer after so many tokens or faults have been taken. -/
def advanced (lexer : Lexer) : Nat → Lexer
  | 0 => lexer
  | count + 1 => ((lexer.advanced count).ask .next).2

/-- What is taken when so many tokens or faults have been taken before it. -/
def result (lexer : Lexer) (index : Nat) : Except SyntaxFault Token :=
  ((lexer.advanced index).ask .next).1

theorem advanced_ask (lexer : Lexer) (count : Nat) :
    (lexer.ask .next).2.advanced count = lexer.advanced (count + 1) := by
  induction count with
  | zero => rfl
  | succ count inductionHypothesis =>
      rw [advanced, inductionHypothesis]
      rfl

theorem results_eq_map (lexer : Lexer) (count : Nat) :
    lexer.results count = (List.range count).map lexer.result := by
  induction count generalizing lexer with
  | zero => rfl
  | succ count inductionHypothesis =>
      rw [results, List.range_succ_eq_map, List.map_cons, List.map_map]
      change _ :: (lexer.ask .next).2.results count = _
      rw [inductionHypothesis]
      refine congrArg (_ :: ·) (List.map_congr_left fun index _ => ?_)
      rw [result, advanced_ask]
      rfl

/-- Nothing is read ahead after taking. -/
theorem ahead_advanced (lexer : Lexer) (count : Nat) :
    (lexer.advanced (count + 1)).ahead = none := by
  rw [advanced, ask]
  rcases next_cases (lexer.advanced count) with ⟨_, _, step⟩ | ⟨_, _, _, _, step⟩ |
      ⟨_, _, _, _, step⟩ <;>
    rw [step] <;> rfl

/-! ## Requests -/

/-- A lexer is asked for a token, or for the line that it has reached. -/
inductive Request where
  | token (call : Call)
  | line

/-- A request with what was answered. -/
inductive Event where
  | token (call : Call) (result : Except SyntaxFault Token)
  | line (line : Nat)

namespace Event

def request : Event → Request
  | .token call _ => .token call
  | .line _ => .line

/-- Something was taken: by a call that takes, or because it was a fault. -/
def takes : Event → Bool
  | .token .next _ | .token .peek (.error _) => true
  | .token .peek (.ok _) | .line _ => false

theorem countP_takes (event : Event) (rest : List Event) :
    (event :: rest).countP takes = event.takes.toNat + rest.countP takes := by
  rw [List.countP_cons, Nat.add_comm]
  cases event.takes <;> rfl

/-- The answer is the right one behind so many results that were taken and so many that were
seen. -/
def Fits (start : Lexer) (taken seen : Nat) : Event → Prop
  | .token _ answer => answer = start.result taken
  | .line reached => reached = (start.advanced seen).line

end Event

/-- What some requests, one after the other, are answered with. -/
def events (lexer : Lexer) : List Request → List Event
  | [] => []
  | .token call :: rest => .token call (lexer.ask call).1 :: events (lexer.ask call).2 rest
  | .line :: rest => .line lexer.line :: events lexer rest

/-- The results in some events, without the repetitions: once a token has been looked at, it is
seen again by every call up to the one that takes it. -/
def seen (looked : Bool) : List Event → List (Except SyntaxFault Token)
  | [] => []
  | .line _ :: rest => seen looked rest
  | .token call result :: rest =>
      let others := seen (!(Event.token call result).takes) rest
      if looked && result.isOk then others else result :: others

theorem request_events (lexer : Lexer) (requests : List Request) :
    (lexer.events requests).map Event.request = requests := by
  induction requests generalizing lexer with
  | nil => rfl
  | cons request rest inductionHypothesis =>
      cases request with
      | token call => exact congrArg _ (inductionHypothesis _)
      | line => exact congrArg _ (inductionHypothesis _)

/-! ## Where a lexer stands -/

/-- Where a lexer stands when so many tokens or faults have been taken and the next token has been
looked at or not. -/
inductive Stands (start : Lexer) (taken : Nat) : Bool → Lexer → Prop
  | open : Stands start taken false (start.advanced taken)
  | looked {token : Token} : start.result taken = .ok token →
      Stands start taken true { start.advanced (taken + 1) with ahead := some token }

namespace Stands

variable {start now : Lexer} {taken : Nat} {looked : Bool}

/-- One call: it answers with the next result, and either takes it or keeps it at hand. -/
theorem step (stands : Stands start taken looked now) (call : Call) :
    (now.ask call).1 = start.result taken ∧
      let took := (Event.token call (start.result taken)).takes
      Stands start (taken + took.toNat) (!took) (now.ask call).2 := by
  cases stands with
  | «open» =>
      cases call with
      | next => exact ⟨rfl, .open⟩
      | peek =>
          have peeked : (start.advanced taken).ask .peek = answered (Lexer.peek _) := rfl
          cases ran : Lexer.next (start.advanced taken) with
          | ok token after =>
              have result : start.result taken = .ok token := by
                rw [Lexer.result, ask, ran]
                rfl
              have moved : after = start.advanced (taken + 1) := by
                rw [advanced, ask, ran]
                rfl
              rw [peek_eq, ran] at peeked
              rw [peeked, result, moved]
              exact ⟨rfl, .looked result⟩
          | error fault after =>
              have result : start.result taken = .error fault := by
                rw [Lexer.result, ask, ran]
                rfl
              have moved : after = start.advanced (taken + 1) := by
                rw [advanced, ask, ran]
                rfl
              rw [peek_eq, ran] at peeked
              rw [peeked, result, moved]
              exact ⟨rfl, .open⟩
  | @looked token result =>
      rw [result]
      cases call with
      | peek => exact ⟨rfl, .looked result⟩
      | next =>
          have put : ({ start.advanced (taken + 1) with ahead := none } : Lexer) =
              start.advanced (taken + 1) := by
            rw [← ahead_advanced start taken]
          refine ⟨rfl, ?_⟩
          change Stands start (taken + 1) false { start.advanced (taken + 1) with ahead := none }
          rw [put]
          exact .open

theorem line_eq (stands : Stands start taken looked now) :
    now.line = (start.advanced (taken + looked.toNat)).line := by
  cases stands <;> rfl

/-- A token that is looked at is counted when it is seen, and not again when it is taken. -/
theorem add_toNat_not (taken : Nat) (looked : Bool) :
    taken + looked.toNat + (!looked).toNat = taken + 1 := by
  cases looked <;> rfl

/-- A result is seen at its first showing only. -/
theorem seen_token (stands : Stands start taken looked now) (call : Call) (rest : List Event) :
    seen looked (.token call (start.result taken) :: rest) =
      (List.range' (taken + looked.toNat) (!looked).toNat).map start.result ++
        seen (!(Event.token call (start.result taken)).takes) rest := by
  cases stands with
  | «open» => rfl
  | looked result =>
      rw [seen, result]
      rfl

/-- Wherever a run has come to, it goes on with the result behind those that were taken, and its
line is that of all that has been seen. -/
theorem event_fits (stands : Stands start taken looked now) (requests : List Request)
    {earlier later : List Event} {event : Event}
    (parts : now.events requests = earlier ++ event :: later) :
    event.Fits start (taken + earlier.countP Event.takes)
      (taken + looked.toNat + (seen looked earlier).length) := by
  induction requests generalizing now taken looked earlier with
  | nil =>
      rw [events] at parts
      exact absurd parts.symm (by simp)
  | cons request rest inductionHypothesis =>
      cases request with
      | line =>
          rw [events] at parts
          cases earlier with
          | nil =>
              cases parts
              exact stands.line_eq
          | cons first earlier =>
              obtain ⟨rfl, behind⟩ := List.cons.inj parts
              have fits := inductionHypothesis stands behind
              exact fits
      | token call =>
          obtain ⟨answer, after⟩ := stands.step call
          rw [events, answer] at parts
          cases earlier with
          | nil =>
              cases parts
              rfl
          | cons first earlier =>
              obtain ⟨rfl, behind⟩ := List.cons.inj parts
              have fits := inductionHypothesis after behind
              rw [add_toNat_not] at fits
              rw [Event.countP_takes, ← Nat.add_assoc, stands.seen_token, List.length_append,
                List.length_map, List.length_range', ← Nat.add_assoc, add_toNat_not]
              exact fits

/-- What a run sees are the results of taking, in their order and without a gap. -/
theorem seen_events (stands : Stands start taken looked now) (requests : List Request) :
    ∃ count, seen looked (now.events requests) =
      (List.range' (taken + looked.toNat) count).map start.result := by
  induction requests generalizing now taken looked with
  | nil => exact ⟨0, rfl⟩
  | cons request rest inductionHypothesis =>
      cases request with
      | line => exact inductionHypothesis stands
      | token call =>
          obtain ⟨answer, after⟩ := stands.step call
          obtain ⟨count, others⟩ := inductionHypothesis after
          refine ⟨(!looked).toNat + count, ?_⟩
          rw [add_toNat_not, ← add_toNat_not taken looked] at others
          rw [events, answer, stands.seen_token, others, ← List.map_append, List.range'_append_1]

end Stands

/-- What is asked of a lexer, in whatever order, is answered with the results of taking alone.  Each
answer is the result behind those that were taken before, where a look takes nothing but a fault, so
that a token that was looked at is answered again until it is taken.  Without these repetitions the
answers are the results from the first one on, and the line is that of what has been seen. -/
theorem lookahead_in_order (lexer : Lexer) (requests : List Request) :
    let events := lexer.events requests
    events.map Event.request = requests ∧
    (∀ earlier event later, events = earlier ++ event :: later →
      event.Fits lexer (earlier.countP Event.takes) (seen false earlier).length) ∧
    (∀ earlier token between call result later,
      events = earlier ++ .token .peek (.ok token) :: (between ++ .token call result :: later) →
      (∀ event ∈ between, event.takes = false) → result = .ok token) ∧
    seen false events = lexer.results (seen false events).length := by
  intro events
  have stands : Stands lexer 0 false lexer := .open
  have fits {earlier later : List Event} {event : Event}
      (parts : events = earlier ++ event :: later) :
      event.Fits lexer (earlier.countP Event.takes) (seen false earlier).length := by
    have fits := stands.event_fits requests parts
    rwa [Nat.zero_add, Bool.toNat_false, Nat.zero_add] at fits
  refine ⟨request_events lexer requests, fun _ _ _ => fits, ?_, ?_⟩
  · intro earlier token between call result later parts looks
    have looked : .ok token = lexer.result (earlier.countP Event.takes) := fits parts
    rw [← List.cons_append, ← List.append_assoc] at parts
    have again : result = lexer.result
        ((earlier ++ .token .peek (.ok token) :: between).countP Event.takes) := fits parts
    have none : between.countP Event.takes = 0 :=
      List.countP_eq_zero.mpr fun event member => by rw [looks event member]; decide
    rw [again, List.countP_append, Event.countP_takes, none]
    exact looked.symm
  · obtain ⟨count, all⟩ := stands.seen_events requests
    change seen false events = _ at all
    rw [all, List.length_map, List.length_range', results_eq_map, List.range_eq_range']
    rfl

/-- The first look meets a fault, and the second one finds what is behind it. -/
theorem lookahead_in_order_behind_fault :
    let requests : List Request :=
      [.token .peek, .token .peek, .line, .token .next, .token .peek, .token .peek, .line,
        .token .next, .token .next]
    let events := (ofSource "$\nx").events requests
    events =
      [.token .peek (.error (.unknownSymbol "$" 1)), .token .peek (.ok ⟨.newLine, "\n", 1⟩),
        .line 2, .token .next (.ok ⟨.newLine, "\n", 1⟩),
        .token .peek (.ok ⟨.identifier, "x", 2⟩), .token .peek (.ok ⟨.identifier, "x", 2⟩),
        .line 2, .token .next (.ok ⟨.identifier, "x", 2⟩),
        .token .next (.ok ⟨.endOfFile, "", 2⟩)] ∧
      seen false events = (ofSource "$\nx").results 4 := by
  intro requests events
  exact ⟨by rfl, (lookahead_in_order (ofSource "$\nx") requests).2.2.2⟩

end Lexer
end Scriptlet
