import Mathlib.Data.List.Induction
import PCode.Proofs.Code
import PCode.Stream

namespace PCode
namespace Stream

/-!
Streams that are written by arbitrary calls.

Frames are closed innermost first.  So between the opening and the closing of a frame there are
calls in the frame itself, and whole frames inside it.  An inner frame changes neither the depth nor
the extent of the frame around it, and a frame that is closed keeps its extent from then on.
-/

/-- A call on a stream.  It is always the innermost frame that is closed. -/
inductive Call where
  | emit (opcode : Opcode) (operands : List Operand)
  | comment (text : String)
  | newLabel (stem : String)
  | bind (label : Nat)
  | openFrame
  | closeFrame
deriving DecidableEq, Repr

/-- A stream with its open frames, innermost first. -/
structure Session where
  stream : Stream := .empty
  frames : List Opened := []
deriving DecidableEq, Repr

/-- One call, unless the stream cannot meet it or there is no such label or frame. -/
def Session.call (session : Session) : Call -> Option Session
  | .emit opcode operands =>
    (session.stream.emit opcode operands).toOption.map ({ session with stream := · })
  | .comment text => some { session with stream := session.stream.comment text }
  | .newLabel stem => some { session with stream := (session.stream.newLabel stem).2 }
  | .bind label =>
    if label < session.stream.labels.length then
      (session.stream.bind label).toOption.map ({ session with stream := · })
    else none
  | .openFrame => some ⟨session.stream.openFrame.2, session.stream.openFrame.1 :: session.frames⟩
  | .closeFrame =>
    match session.frames with
    | [] => none
    | opened :: frames => some ⟨session.stream.closeFrame opened, frames⟩

/-- Calls one after another on a fresh stream. -/
def run (calls : List Call) : Option Session := calls.foldlM Session.call {}

/-- The instructions that are emitted by calls. -/
def emitted (calls : List Call) : List Instruction :=
  calls.filterMap fun call => match call with
    | .emit opcode operands => some ⟨opcode, operands⟩
    | _ => none

/-- The change of the depth by an instruction, as a machine integer. -/
def effectOf (opcode : Opcode) (operands : List Operand) : Int64 :=
  .ofInt (Instruction.effect ⟨opcode, operands⟩)

/-- Calls that concern neither the depth nor frames. -/
def Call.isPlain : Call -> Bool
  | .comment _ | .newLabel _ | .bind _ => true
  | _ => false

/-- Calls between the opening of a frame and its closing, with the effects of the instructions that
belong to the frame itself and not to a frame inside it. -/
inductive Within : List Call -> List Int64 -> Prop
  | nil : Within [] []
  | emit {calls effects} (opcode : Opcode) (operands : List Operand) :
    Within calls effects ->
    Within (calls ++ [.emit opcode operands]) (effects ++ [effectOf opcode operands])
  | plain {calls effects call} :
    call.isPlain = true -> Within calls effects -> Within (calls ++ [call]) effects
  | frame {calls inside effects inner} :
    Within inside inner -> Within calls effects ->
    Within (calls ++ .openFrame :: (inside ++ [.closeFrame])) effects

/-- The sum of effects in the arithmetic of the machine. -/
def total (effects : List Int64) : Int64 := effects.foldl (· + ·) 0

theorem total_concat (effects : List Int64) (effect : Int64) :
    total (effects ++ [effect]) = total effects + effect :=
  List.foldl_append

/-- The greatest depth that is reached by effects one after another, starting from zero. -/
structure IsPeak (effects : List Int64) (depth : Int64) : Prop where
  bounds : forall front, front <+: effects -> total front <= depth
  reached : exists front, front <+: effects ∧ total front = depth

theorem IsPeak.nil : IsPeak [] 0 where
  bounds := by
    intro front start
    rw [List.prefix_nil.mp start]
    decide
  reached := ⟨[], List.prefix_rfl, rfl⟩

/-- The extent of a frame is widened to the depth behind each effect. -/
theorem IsPeak.widen {effects max} (peak : IsPeak effects max) (effect : Int64) :
    IsPeak (effects ++ [effect])
      (if total (effects ++ [effect]) > max then total (effects ++ [effect]) else max) := by
  split
  · rename_i higher
    refine ⟨fun front start => ?_, _, List.prefix_rfl, rfl⟩
    rcases List.prefix_concat_iff.mp start with rfl | before
    · exact Int64.le_refl _
    · exact Int64.le_trans (peak.bounds front before) (Int64.le_of_lt higher)
  · rename_i lower
    rcases peak.reached with ⟨top, start, reached⟩
    refine ⟨fun front start => ?_, top, start.trans (List.prefix_append _ _), reached⟩
    rcases List.prefix_concat_iff.mp start with rfl | before
    · exact Int64.not_lt.mp lower
    · exact peak.bounds front before

/-! ## Steps -/

/-- Where calls have got to: outside of all frames, or into a frame that one of them has opened. -/
inductive Stands : List Call -> Session -> Prop
  | outside {calls effects session} :
    Within calls effects -> session.frames = [] -> session.stream.current = none ->
    Stands calls session
  | inside {earlier calls effects before session max} :
    run earlier = some before -> Stands earlier before -> Within calls effects ->
    session.frames = before.stream.openFrame.1 :: before.frames ->
    session.stream.current = some before.stream.extents.length ->
    session.stream.depth = total effects ->
    (forall id, id < before.stream.extents.length ->
      session.stream.extents[id]? = before.stream.extents[id]?) ->
    session.stream.extents[before.stream.extents.length]? = some ⟨max, false⟩ ->
    IsPeak effects max ->
    Stands (earlier ++ .openFrame :: calls) session

/-- What stays as it is from one call to the next: bound labels and the extents of closed frames. -/
structure Keeps (session next : Session) : Prop where
  labels : forall (id : Nat) (label : Label), label.address.isSome = true ->
    session.stream.labels[id]? = some label -> next.stream.labels[id]? = some label
  extents : forall (id : Nat) (extent : Extent), extent.closed = true ->
    session.stream.extents[id]? = some extent -> next.stream.extents[id]? = some extent

section Steps

variable {calls more : List Call} {session next : Session}

/-- Calls that leave the frame as it was. -/
theorem Stands.extend (stands : Stands calls session)
    (grow : forall {calls effects}, Within calls effects -> Within (calls ++ more) effects)
    (frames : next.frames = session.frames) (current : next.stream.current = session.stream.current)
    (depth : next.stream.depth = session.stream.depth)
    (kept : forall id, id < session.stream.extents.length ->
      next.stream.extents[id]? = session.stream.extents[id]?) : Stands (calls ++ more) next := by
  cases stands with
  | outside within noFrames noCurrent =>
    exact .outside (grow within) (frames.trans noFrames) (current.trans noCurrent)
  | inside ran outer within opened at' sum old here peak =>
    have bound := (List.getElem?_eq_some_iff.mp here).1
    rw [List.append_assoc]
    exact .inside ran outer (grow within) (frames.trans opened) (current.trans at')
      (depth.trans sum) (fun id less => (kept id (Nat.lt_trans less bound)).trans (old id less))
      ((kept _ bound).trans here) peak

theorem modify_keeps {Entry : Type} {entries : List Entry} {place other : Nat} {entry}
    {change : Entry -> Entry} (found : entries[other]? = some entry)
    (different : entries[place]? ≠ some entry) :
    (entries.modify place change)[other]? = some entry := by
  rw [List.getElem?_modify_ne _ _ (by rintro rfl; exact different found)]
  exact found

theorem append_keeps {Entry : Type} {entries more : List Entry} {place : Nat} {entry}
    (found : entries[place]? = some entry) : (entries ++ more)[place]? = some entry :=
  (List.getElem?_append_left (List.getElem?_eq_some_iff.mp found).1).trans found

/-- One call: an instruction is written behind the others, and nothing that is final is changed. -/
theorem Stands.step (ran : run calls = some session) (stands : Stands calls session) {call}
    (called : session.call call = some next) :
    Stands (calls ++ [call]) next ∧ Keeps session next
      ∧ next.stream.code.instructions = session.stream.code.instructions ++ emitted [call] := by
  cases call with
  | comment text =>
    cases called
    exact ⟨stands.extend (.plain rfl) rfl rfl rfl fun _ _ => rfl,
      ⟨fun _ _ _ => id, fun _ _ _ => id⟩, by simp [comment, emitted]⟩
  | newLabel stem =>
    cases called
    exact ⟨stands.extend (.plain rfl) rfl rfl rfl fun _ _ => rfl,
      ⟨fun _ _ _ => append_keeps, fun _ _ _ => id⟩, by simp [newLabel, emitted]⟩
  | bind label =>
    simp only [Session.call, Stream.bind] at called
    split at called
    · split at called
      · cases called
      · rename_i unbound
        cases called
        refine ⟨stands.extend (.plain rfl) rfl rfl rfl fun _ _ => rfl,
          ⟨fun _ known bound found => modify_keeps found fun same => ?_, fun _ _ _ => id⟩,
          by simp [emitted]⟩
        rcases known with ⟨name, address⟩
        rcases Option.isSome_iff_exists.mp bound with ⟨address, rfl⟩
        exact unbound name address same
    · cases called
  | emit opcode operands =>
    simp only [Session.call, Stream.emit] at called
    split at called
    · cases called
      cases stands with
      | outside within noFrames noCurrent =>
        refine ⟨.outside (.emit _ _ within) noFrames noCurrent,
          ⟨fun _ _ _ => id, fun _ _ _ found => ?_⟩, Code.instructions_append _ _⟩
        simpa only [reach, noCurrent] using found
      | inside ranOuter outer within opened current sum old here peak =>
        have depth := (congrArg (· + effectOf opcode operands) sum).trans (total_concat _ _).symm
        rw [List.append_assoc]
        refine ⟨.inside ranOuter outer (.emit _ _ within) opened current depth
          (fun id less => ?_) ?_ (peak.widen _), ⟨fun _ _ _ => id, fun _ _ closed found => ?_⟩,
          Code.instructions_append _ _⟩
        all_goals simp only [reach, current]
        · exact (List.getElem?_modify_ne _ _ (Nat.ne_of_gt less)).trans (old id less)
        · rw [List.getElem?_modify_eq, here, ← depth]
          rfl
        · refine modify_keeps found ?_
          rw [here]
          rintro ⟨⟩
          cases closed
    · cases called
  | openFrame =>
    cases called
    exact ⟨.inside ran stands .nil rfl rfl rfl (fun _ => List.getElem?_append_left)
        List.getElem?_concat_length .nil,
      ⟨fun _ _ _ => id, fun _ _ _ => append_keeps⟩, by simp [openFrame, emitted]⟩
  | closeFrame =>
    cases stands with
    | outside _ noFrames _ =>
      rw [Session.call, noFrames] at called
      cases called
    | inside _ outer within opened _ _ old here _ =>
      rw [Session.call, opened] at called
      cases called
      rw [List.append_assoc]
      refine ⟨outer.extend (.frame within) rfl rfl rfl fun id less =>
          (List.getElem?_modify_ne _ _ (Nat.ne_of_gt less)).trans (old id less),
        ⟨fun _ _ _ => id, fun _ _ closed found => modify_keeps found ?_⟩,
        by simp [closeFrame, emitted]⟩
      rw [openFrame, here]
      rintro ⟨⟩
      cases closed

end Steps

/-! ## Runs -/

section Runs

variable {calls front rest : List Call} {call : Call} {session last : Session}

theorem exists_run (ran : run (front ++ rest) = some last) :
    exists session, run front = some session ∧ rest.foldlM Session.call session = some last := by
  rw [run, List.foldlM_append] at ran
  exact Option.bind_eq_some_iff.mp ran

theorem exists_call (ran : run (front ++ [call]) = some last) :
    exists session, run front = some session ∧ session.call call = some last := by
  rcases exists_run ran with ⟨session, before, called⟩
  exact ⟨session, before, by simpa using called⟩

theorem stands_of_run (ran : run calls = some session) :
    Stands calls session ∧ session.stream.code.instructions = emitted calls := by
  induction calls using List.reverseRecOn generalizing session with
  | nil =>
    cases ran
    exact ⟨.outside .nil rfl rfl, rfl⟩
  | append_singleton calls call ih =>
    rcases exists_call ran with ⟨before, earlier, called⟩
    rcases ih earlier with ⟨stands, written⟩
    rcases stands.step earlier called with ⟨stands, _, writes⟩
    exact ⟨stands, by rw [writes, written, emitted, emitted, emitted, List.filterMap_append]⟩

/-- What is final behind some of the calls is so behind all of them. -/
theorem keeps_of_run (before : run front = some session) (ran : run (front ++ rest) = some last) :
    Keeps session last := by
  induction rest using List.reverseRecOn generalizing last with
  | nil =>
    rw [List.append_nil, before] at ran
    cases ran
    exact ⟨fun _ _ _ => id, fun _ _ _ => id⟩
  | append_singleton rest call ih =>
    rw [← List.append_assoc] at ran
    rcases exists_call ran with ⟨middle, earlier, called⟩
    have first := ih earlier
    have second := ((stands_of_run earlier).1.step earlier called).2.1
    exact ⟨fun id label bound => second.labels id label bound ∘ first.labels id label bound,
      fun id extent closed => second.extents id extent closed ∘ first.extents id extent closed⟩

end Runs

/-- A frame with two instructions of its own around a frame with two others. -/
def nested : List Call :=
  [.openFrame, .emit .ldc [.int 1], .openFrame, .emit .ldc [.int 2], .emit .mst [.int 0],
    .closeFrame, .emit .ldc [.int 3], .closeFrame]

end Stream
end PCode
