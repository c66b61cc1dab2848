import ServiceTemplate.GrpcResponse
import Mathlib.Data.List.Basic

/-! A response has one terminal owner: over every interleaving of its reader, the stop timer, the
upload, the context and the drop, its resources are released once and its call is recorded once, with
the status that was given. -/
namespace GrpcTerminal

open ByteFraming
open TransitionSystem
open SharedState
open CustodyCell
open OperationStop
open GrpcResponse

variable {Error : Type} {config : Config Error} {sh sh' : Shared Error} {party : Party}

inductive Frame where
  | data (bytes : Bytes)
  | trailers (headers : HeaderMap)
  deriving DecidableEq

def innerFrame : InnerPoll Error → Option Frame
  | .data bytes => some (.data bytes)
  | .trailers headers => some (.trailers headers)
  | _ => none

def answerFrame : Answer Error → Option Frame
  | .data bytes => some (.data bytes)
  | .trailers headers => some (.trailers headers)
  | _ => none

def obtainedFrame (poll : PollRecord Error) : Option Frame := poll.inner.bind innerFrame

def obtainedFrames (polls : List (PollRecord Error)) : List Frame :=
  polls.filterMap obtainedFrame

def deliveredFrames (polls : List (PollRecord Error)) : List Frame :=
  polls.filterMap fun poll => answerFrame poll.answer

def terminal : Answer Error → Bool
  | .pending => false
  | .data _ => false
  | _ => true

/-- After a trailer frame, an error, a panic or the end there is only the end. -/
def Final (earlier later : PollRecord Error) : Prop :=
  terminal earlier.answer = true → later.answer = .ended

def givenCode (config : Config Error) : Answer Error → Option Code
  | .trailers headers => some (headers.status.getD .unknown)
  | .generated headers => headers.status
  | .error error => some (config.errorCode error)
  | _ => none

/-- The statuses a response makes itself. -/
def Generated (config : Config Error) (status : Status) : Prop :=
  status = internal ∨ ∃ stopped, status = config.side.stopped stopped

/-- What a poll answers: the stop of the context comes before anything of the inner body, and the
deadline before a cancellation. A panic of the inner body is not covered up. -/
def Prompt (config : Config Error) (poll : PollRecord Error) : Prop :=
  match poll.found, poll.before.stopped, poll.inner with
  | false, _, inner => inner = none ∧
      (poll.answer = .ended ∨ ∃ status, Generated config status ∧
        poll.answer = .generated status.trailers)
  | true, some stopped, inner => inner = none ∧
      poll.answer = .generated (config.side.stopped stopped).trailers
  | true, none, some .panicked =>
      poll.answer = match config.side with
        | .client => .panicked
        | .server => .generated internal.trailers
  | true, none, _ => ∀ stopped, poll.after.stopped = some stopped →
      poll.answer = .generated (config.side.stopped stopped).trailers

def recorded (finishing : Finishing) : Handled := finishing.handled.getD ⟨.cancelled, none⟩

def AllReleased (released : Released) (handled : Handled) : Prop :=
  released = ⟨1, 1, 1, 1, [handled]⟩

structure Untouched (sh : Shared Error) : Prop where
  released : sh.released = ⟨0, 0, 0, 0, []⟩
  terminal : sh.terminal = none
  header : sh.header = none
  abandoned : sh.abandoned = false
  answers : ∀ poll ∈ sh.polls, GrpcTerminal.terminal poll.answer = false
  frames : deliveredFrames sh.polls = obtainedFrames sh.polls

/-- A generated status waits for the reader, who has got nothing terminal. -/
structure Waiting (config : Config Error) (sh : Shared Error) (trailers : HeaderMap) : Prop where
  generated : ∃ status, Generated config status ∧ trailers = status.trailers ∧
    sh.claimed = some status.code
  answers : ∀ poll ∈ sh.polls, GrpcTerminal.terminal poll.answer = false
  header : sh.header = none

structure Inv (config : Config Error) (sh : Shared Error) : Prop where
  claimed : sh.custody = .cell ↔ sh.claimed = none
  untouched : sh.custody = .cell → Untouched sh
  released : sh.custody = .released → ∃ handled, AllReleased sh.released handled ∧
    sh.claimed = some handled.code ∧ sh.source = false
  waiting : ∀ trailers, sh.terminal = some trailers → Waiting config sh trailers
  final : sh.polls.Pairwise Final
  given : ∀ poll ∈ sh.polls, ∀ code, givenCode config poll.answer = some code →
    sh.claimed = some code
  header : ∀ code, sh.header = some code → sh.claimed = some code ∧
    ∀ poll ∈ sh.polls, poll.answer = .ended
  abandoned : sh.abandoned = true → sh.claimed = some .cancelled
  frames : deliveredFrames sh.polls <+: obtainedFrames sh.polls
  prompt : ∀ poll ∈ sh.polls, Prompt config poll
  source : sh.sources ≤ 1 ∧ (sh.source = true → sh.sources = 0)

def Progress (finishing : Finishing) (sh : Shared Error) : Prop :=
  match finishing.place with
  | .record => sh.released = ⟨0, 0, 0, 0, []⟩
  | .body => sh.released = ⟨0, 0, 0, 0, finishing.handled.toList⟩
  | .call => sh.released = ⟨1, 0, 0, 0, finishing.handled.toList⟩
  | .permit => sh.released = ⟨1, 0, 0, 0, [recorded finishing]⟩
  | .upload => sh.released = ⟨1, 1, 0, 0, [recorded finishing]⟩
  | .guard => sh.released = ⟨1, 1, 1, 0, [recorded finishing]⟩ ∧ sh.source = false

structure Holds (party : Party) (sh : Shared Error) (finishing : Finishing) : Prop where
  custody : sh.custody = .held party
  progress : Progress finishing sh
  claimed : sh.claimed = some (recorded finishing).code

structure Guarantee (party : Party) (sh sh' : Shared Error) : Prop where
  custody : Respects party sh.custody sh'.custody
  kept : ∀ other, other ≠ party → sh.custody = .held other →
    sh'.released = sh.released ∧ sh'.claimed = sh.claimed
  source : sh.source = false → sh'.source = false

def ReaderSound (sh : Shared Error) : ReaderStage → Prop
  | .finishing finishing _ => Holds .reader sh finishing
  | .dropped => sh.custody ≠ .held .reader ∧ sh.custody ≠ .cell
  | _ => sh.custody ≠ .held .reader

def TimerSound (config : Config Error) (sh : Shared Error) : TimerStage → Prop
  | .finishing finishing => Holds .timer sh finishing
  | .terminating status => sh.custody ≠ .held .timer ∧ Generated config status
  | _ => sh.custody ≠ .held .timer

def TaskSound (config : Config Error) (sh : Shared Error) : Party → Task → Prop
  | .reader, .reader _ stage => ReaderSound sh stage
  | .timer, .timer stage => TimerSound config sh stage
  | .uploader, .uploader => sh.custody ≠ .held .uploader
  | _, _ => False

structure Moves (config : Config Error) (party : Party) (sh sh' : Shared Error) : Prop where
  inv : Inv config sh'
  guarantee : Guarantee party sh sh'

theorem Guarantee.refl (party : Party) (sh : Shared Error) : Guarantee party sh sh where
  custody := .refl party sh.custody
  kept _ _ _ := ⟨rfl, rfl⟩
  source h := h

theorem Moves.refl (h : Inv config sh) : Moves config party sh sh := ⟨h, .refl party sh⟩

theorem Progress.stable {finishing : Finishing} (hreleased : sh'.released = sh.released)
    (hsource : sh.source = false → sh'.source = false) (h : Progress finishing sh) :
    Progress finishing sh' := by
  rcases finishing with ⟨handled, place⟩
  cases place with
  | guard => exact ⟨hreleased.trans h.1, hsource h.2⟩
  | _ => exact hreleased.trans h

theorem Holds.stable {finishing : Finishing} {other : Party} (hg : Guarantee other sh sh')
    (hne : party ≠ other) (h : Holds party sh finishing) : Holds party sh' finishing := by
  rcases hg.kept party hne h.custody with ⟨hreleased, hclaimed⟩
  exact ⟨hg.custody.held party hne h.custody, h.progress.stable hreleased hg.source,
    hclaimed.trans h.claimed⟩

theorem reader_stable {stage : ReaderStage} {other : Party} (hg : Guarantee other sh sh')
    (hne : .reader ≠ other) (h : ReaderSound sh stage) : ReaderSound sh' stage := by
  cases stage with
  | finishing finishing after => exact Holds.stable hg hne h
  | dropped => exact ⟨hg.custody.unheld .reader hne h.1, hg.custody.closed h.2⟩
  | _ => exact hg.custody.unheld .reader hne h

theorem timer_stable {stage : TimerStage} {other : Party} (hg : Guarantee other sh sh')
    (hne : .timer ≠ other) (h : TimerSound config sh stage) : TimerSound config sh' stage := by
  cases stage with
  | finishing finishing => exact Holds.stable hg hne h
  | terminating status => exact ⟨hg.custody.unheld .timer hne h.1, h.2⟩
  | _ => exact hg.custody.unheld .timer hne h

theorem task_stable {task : Task} {other : Party} (hg : Guarantee other sh sh')
    (hne : party ≠ other) (h : TaskSound config sh party task) :
    TaskSound config sh' party task := by
  cases party with
  | reader =>
    cases task with
    | reader handle stage => exact reader_stable hg hne h
    | _ => exact h.elim
  | timer =>
    cases task with
    | timer stage => exact timer_stable hg hne h
    | _ => exact h.elim
  | uploader =>
    cases task with
    | uploader => exact hg.custody.unheld .uploader hne h
    | _ => exact h.elim

/-- A party takes the resources, with the status the reader will find. -/
theorem Inv.take (h : Inv config sh) (hcell : sh.custody = .cell) {code : Code}
    {trailers : Option HeaderMap} {abandoned : Bool}
    (htrailers : ∀ headers, trailers = some headers → ∃ status, Generated config status ∧
      headers = status.trailers ∧ code = status.code)
    (habandoned : abandoned = true → code = .cancelled) :
    Moves config party sh { sh with
      custody := .held party, claimed := some code, terminal := trailers,
      abandoned := abandoned } := by
  have hun := h.untouched hcell
  refine ⟨⟨?_, ?_, ?_, ?_, h.final, ?_, ?_, ?_, h.frames, h.prompt, h.source⟩,
    ⟨.take party hcell, ?_, fun hsource => hsource⟩⟩
  · simp
  · simp
  · simp
  · intro headers hheaders
    rcases htrailers headers hheaders with ⟨status, hgenerated, rfl, rfl⟩
    exact ⟨⟨status, hgenerated, rfl, rfl⟩, hun.answers, hun.header⟩
  · intro poll hmem given hgiven
    have hopen := h.given poll hmem given hgiven
    rw [h.claimed.mp hcell] at hopen
    cases hopen
  · intro given hgiven
    rw [show sh.header = none from hun.header] at hgiven
    cases hgiven
  · intro habandon
    rw [habandoned habandon]
  · intro other _ hheld
    rw [hcell] at hheld
    cases hheld

/-- A party that took the resources releases them, one that did not goes on without. -/
def Proceeds (party : Party) (sh : Shared Error) : Option Finishing → Prop
  | some finishing => Holds party sh finishing
  | none => sh.custody ≠ .held party

theorem Inv.status (h : Inv config sh) (hunheld : sh.custody ≠ .held party) {status : Status}
    (hgenerated : Generated config status) {completion : Option Finishing}
    (hstep : sh.status config party status = (sh', completion)) :
    Moves config party sh sh' ∧ Proceeds party sh' completion := by
  by_cases hcell : sh.custody = .cell
  · simp only [Shared.status, Shared.finish, if_pos hcell] at hstep
    cases hstep
    have hun := h.untouched hcell
    refine ⟨h.take hcell ?_ ?_, rfl, hun.released, rfl⟩
    · intro headers hheaders
      exact ⟨status, hgenerated, (Option.some.inj hheaders).symm, rfl⟩
    · intro habandoned
      rw [hun.abandoned] at habandoned
      cases habandoned
  · simp only [Shared.status, Shared.finish, if_neg hcell] at hstep
    cases hstep
    exact ⟨.refl h, hunheld⟩

theorem Inv.take_source (h : Inv config sh) : Inv config sh.takeSource := by
  refine { h with untouched := ?_, released := ?_, waiting := ?_, source := ?_ }
  · intro hcell
    exact { h.untouched hcell with }
  · intro hreleased
    rcases h.released hreleased with ⟨handled, hall, hclaimed, -⟩
    exact ⟨handled, hall, hclaimed, rfl⟩
  · intro trailers htrailers
    exact { h.waiting trailers htrailers with }
  · have hsource := h.source
    cases hpresent : sh.source with
    | true =>
      have hzero := hsource.2 hpresent
      simp [Shared.takeSource, hpresent, hzero]
    | false =>
      refine ⟨?_, by simp [Shared.takeSource]⟩
      simp only [Shared.takeSource, hpresent]
      exact hsource.1

theorem Inv.count (h : Inv config sh) (hheld : sh.custody = .held party) (released : Released) :
    Moves config party sh { sh with released := released } := by
  refine ⟨{ h with untouched := ?_, released := ?_, waiting := ?_ },
    { Guarantee.refl party sh with kept := ?_ }⟩
  · simp [hheld]
  · simp [hheld]
  · intro trailers htrailers
    exact { h.waiting trailers htrailers with }
  · intro other hother hheld'
    rw [hheld] at hheld'
    exact absurd (Custody.held.inj hheld').symm hother

theorem Inv.release (h : Inv config sh) {finishing : Finishing} (hholds : Holds party sh finishing)
    {completion : Option Finishing} (hstep : finishing.step sh = (sh', completion)) :
    Moves config party sh sh' ∧ Proceeds party sh' completion := by
  rcases hholds with ⟨hheld, hprogress, hclaimed⟩
  rcases finishing with ⟨handled, place⟩
  cases place with
  | record =>
    have hreleased : sh.released = ⟨0, 0, 0, 0, []⟩ := hprogress
    cases handled with
    | none =>
      cases hstep
      exact ⟨.refl h, hheld, hreleased, hclaimed⟩
    | some handled =>
      cases hstep
      refine ⟨h.count hheld _, hheld, ?_, hclaimed⟩
      simp [Progress, Shared.addRecord, hreleased]
  | body =>
    have hreleased : sh.released = ⟨0, 0, 0, 0, handled.toList⟩ := hprogress
    cases hstep
    refine ⟨h.count hheld _, hheld, ?_, hclaimed⟩
    simp [Progress, hreleased]
  | call =>
    have hreleased : sh.released = ⟨1, 0, 0, 0, handled.toList⟩ := hprogress
    cases handled with
    | none =>
      cases hstep
      refine ⟨h.count hheld _, hheld, ?_, hclaimed⟩
      simp [Progress, Shared.addRecord, hreleased, recorded]
    | some handled =>
      cases hstep
      exact ⟨.refl h, hheld, hreleased, hclaimed⟩
  | permit =>
    have hreleased : sh.released = ⟨1, 0, 0, 0, [recorded ⟨handled, .permit⟩]⟩ := hprogress
    cases hstep
    refine ⟨h.count hheld _, hheld, ?_, hclaimed⟩
    simp [Progress, hreleased, recorded]
  | upload =>
    have hreleased : sh.released = ⟨1, 1, 0, 0, [recorded ⟨handled, .upload⟩]⟩ := hprogress
    cases hstep
    have hmoves : Moves config party sh.takeSource { sh.takeSource with
        released := { sh.released with uploads := sh.released.uploads + 1 } } :=
      h.take_source.count hheld _
    refine ⟨⟨hmoves.inv, ?_⟩, hheld, ⟨?_, rfl⟩, hclaimed⟩
    · exact ⟨hmoves.guarantee.custody, hmoves.guarantee.kept, fun _ => rfl⟩
    · simp [hreleased, recorded]
  | guard =>
    have hreleased : sh.released = ⟨1, 1, 1, 0, [recorded ⟨handled, .guard⟩]⟩ := hprogress.1
    cases hstep
    refine ⟨⟨{ h with claimed := ?_, untouched := ?_, released := ?_, waiting := ?_ },
      ⟨.release hheld, ?_, fun hsource => hsource⟩⟩, ?_⟩
    · simp [hclaimed]
    · simp
    · intro _
      refine ⟨recorded ⟨handled, .guard⟩, ?_, hclaimed, hprogress.2⟩
      simp [AllReleased, hreleased]
    · intro trailers htrailers
      exact { h.waiting trailers htrailers with }
    · intro other hother hheld'
      rw [hheld] at hheld'
      exact absurd (Custody.held.inj hheld').symm hother
    · simp [Proceeds]

/-- A poll that leaves the response open hands over what it obtained. -/
structure Keeps (config : Config Error) (poll : PollRecord Error) : Prop where
  open_ : terminal poll.answer = false
  frame : answerFrame poll.answer = obtainedFrame poll
  prompt : Prompt config poll

/-- A poll that ends it gives the status that is recorded, and no other frame than it obtained. -/
structure Ends (config : Config Error) (handled : Handled) (poll : PollRecord Error) : Prop where
  code : ∀ code, givenCode config poll.answer = some code → code = handled.code
  frame : answerFrame poll.answer = none ∨ answerFrame poll.answer = obtainedFrame poll
  prompt : Prompt config poll

theorem answer_status (hcell : sh.custody = .cell) (hterminal : sh.terminal = none)
    (config : Config Error) (context : OperationContext) (status : Status) :
    Shared.answerStatus { sh with context := context } config status =
      ({ sh with context := context, custody := .held .reader, claimed := some status.code },
        some ⟨some ⟨status.code, config.side.failure status.failure⟩, .record⟩,
        .generated status.trailers) := by
  simp [Shared.answerStatus, Shared.status, Shared.finish, hcell, Shared.takeTerminal, hterminal]

theorem answer_finish (hcell : sh.custody = .cell) (context : OperationContext) (handled : Handled)
    (answer : Answer Error) :
    Shared.answerFinish { sh with context := context } handled answer =
      ({ sh with context := context, custody := .held .reader, claimed := some handled.code },
        some ⟨some handled, .record⟩, answer) := by
  simp [Shared.answerFinish, Shared.finish, hcell]

inductive OpenPoll (config : Config Error) (sh : Shared Error) (polled : Option (InnerPoll Error)) :
    Shared Error × Option Finishing × Answer Error → Prop
  | keeps (context : OperationContext) (answer : Answer Error)
      (h : Keeps config ⟨true, sh.context, context, polled, answer⟩) :
      OpenPoll config sh polled ({ sh with context := context }, none, answer)
  | ends (context : OperationContext) (handled : Handled) (answer : Answer Error)
      (h : Ends config handled ⟨true, sh.context, context, polled, answer⟩) :
      OpenPoll config sh polled
        ({ sh with context := context, custody := .held .reader, claimed := some handled.code },
          some ⟨some handled, .record⟩, answer)

theorem accept_frame_cases {context : OperationContext} (hcell : sh.custody = .cell)
    (hlive : sh.context.stopped = none) (hlater : context.stopped = none)
    {inner : InnerPoll Error} (hinner : inner ≠ .panicked) :
    OpenPoll config sh (some inner) (acceptFrame config { sh with context := context } inner) := by
  have hprompt : ∀ answer, Prompt config ⟨true, sh.context, context, some inner, answer⟩ := by
    intro answer
    cases inner with
    | panicked => exact absurd rfl hinner
    | _ => simp [Prompt, hlive, hlater]
  cases inner with
  | pending => exact .keeps context .pending ⟨rfl, rfl, hprompt _⟩
  | data bytes => exact .keeps context (.data bytes) ⟨rfl, rfl, hprompt _⟩
  | trailers headers =>
    rw [acceptFrame, answer_finish hcell]
    refine .ends context _ _ ⟨?_, .inr rfl, hprompt _⟩
    rintro code ⟨⟩
    rfl
  | error error =>
    rw [acceptFrame, answer_finish hcell]
    refine .ends context _ _ ⟨?_, .inl rfl, hprompt _⟩
    rintro code ⟨⟩
    rfl
  | ended =>
    rw [acceptFrame, answer_finish hcell]
    exact .ends context _ _ ⟨by simp [givenCode], .inl rfl, hprompt _⟩
  | panicked => exact absurd rfl hinner

theorem generated_ends {context : OperationContext} {polled : Option (InnerPoll Error)}
    {status : Status} {failure : Option Catalog}
    (h : Prompt config ⟨true, sh.context, context, polled, .generated status.trailers⟩) :
    Ends config ⟨status.code, failure⟩
      ⟨true, sh.context, context, polled, .generated status.trailers⟩ := by
  refine ⟨?_, .inl rfl, h⟩
  rintro code ⟨⟩
  rfl

theorem poll_open_cases (hcell : sh.custody = .cell) (hterminal : sh.terminal = none)
    (inner : InnerPoll Error) (during : OperationContext) :
    OpenPoll config sh (match sh.context.stopped with
      | none => some inner
      | some _ => none) (pollOpen config sh inner during) := by
  cases hbefore : sh.context.stopped with
  | some stopped =>
    have hanswer := answer_status hcell hterminal config sh.context (config.side.stopped stopped)
    simp only [pollOpen, hbefore]
    exact hanswer ▸ .ends sh.context _ _ (generated_ends (by simp [Prompt, hbefore]))
  | none =>
    by_cases hpanic : inner = .panicked
    · subst hpanic
      cases hside : config.side with
      | client =>
        simp only [pollOpen, hbefore, hside]
        rw [answer_finish hcell]
        exact .ends _ _ _ ⟨by simp [givenCode], .inl rfl, by simp [Prompt, hbefore, hside]⟩
      | server =>
        simp only [pollOpen, hbefore, hside]
        have hprompt : Prompt config ⟨true, sh.context, sh.context.join during,
            some (InnerPoll.panicked : InnerPoll Error), .generated internal.trailers⟩ := by
          simp [Prompt, hbefore, hside]
        rw [answer_status hcell hterminal]
        exact .ends _ _ _ (generated_ends hprompt)
    · cases hafter : (sh.context.join during).stopped with
      | some stopped =>
        have hprompt : Prompt config ⟨true, sh.context, sh.context.join during, some inner,
            .generated (config.side.stopped stopped).trailers⟩ := by
          cases inner with
          | panicked => exact absurd rfl hpanic
          | _ => simp [Prompt, hbefore, hafter]
        have hends : OpenPoll config sh (some inner)
            (Shared.answerStatus { sh with context := sh.context.join during } config
              (config.side.stopped stopped)) := by
          rw [answer_status hcell hterminal]
          exact .ends _ _ _ (generated_ends hprompt)
        cases inner with
        | panicked => exact absurd rfl hpanic
        | _ => simpa only [pollOpen, hbefore, hafter] using hends
      | none =>
        have haccept : OpenPoll config sh (some inner)
            (acceptFrame config { sh with context := sh.context.join during } inner) :=
          accept_frame_cases hcell hbefore hafter hpanic
        cases inner with
        | panicked => exact absurd rfl hpanic
        | _ => simpa only [pollOpen, hbefore, hafter] using haccept

section Log

variable {polls : List (PollRecord Error)} {poll : PollRecord Error}

@[simp] theorem delivered_snoc : deliveredFrames (polls ++ [poll]) =
    deliveredFrames polls ++ (answerFrame poll.answer).toList := by
  cases h : answerFrame poll.answer <;> simp [deliveredFrames, h]

@[simp] theorem obtained_snoc : obtainedFrames (polls ++ [poll]) =
    obtainedFrames polls ++ (obtainedFrame poll).toList := by
  cases h : obtainedFrame poll <;> simp [obtainedFrames, h]

theorem final_snoc (hs : polls.Pairwise Final) (h : ∀ earlier ∈ polls, Final earlier poll) :
    (polls ++ [poll]).Pairwise Final := by
  rw [List.pairwise_append]
  refine ⟨hs, List.pairwise_singleton _ _, fun earlier hmem later hlater => ?_⟩
  rw [List.mem_singleton.mp hlater]
  exact h earlier hmem

theorem final_of_open (h : ∀ earlier ∈ polls, terminal earlier.answer = false) :
    ∀ earlier ∈ polls, Final earlier poll := by
  intro earlier hmem hterminal
  rw [h earlier hmem] at hterminal
  cases hterminal

theorem given_of_open (h : terminal poll.answer = false) : givenCode config poll.answer = none := by
  cases hanswer : poll.answer <;> simp_all [terminal, givenCode]

end Log

theorem Inv.poll_open (h : Inv config sh) (hcell : sh.custody = .cell)
    {polled : Option (InnerPoll Error)} {out : Shared Error} {completion : Option Finishing}
    {answer : Answer Error} (hcase : OpenPoll config sh polled (out, completion, answer)) :
    Moves config .reader sh { out with
      polls := sh.polls ++ [⟨true, sh.context, out.context, polled, answer⟩] } ∧
      Proceeds .reader { out with
        polls := sh.polls ++ [⟨true, sh.context, out.context, polled, answer⟩] } completion := by
  have hun := h.untouched hcell
  have hclaimed := h.claimed.mp hcell
  have hunder : ∀ poll ∈ sh.polls, ∀ code, givenCode config poll.answer ≠ some code := by
    intro poll hmem code hgiven
    rw [given_of_open (hun.answers poll hmem)] at hgiven
    cases hgiven
  cases hcase with
  | keeps context _ hkeeps =>
    have hframes : deliveredFrames (sh.polls ++ [⟨true, sh.context, context, polled, answer⟩]) =
        obtainedFrames (sh.polls ++ [⟨true, sh.context, context, polled, answer⟩]) := by
      rw [delivered_snoc, obtained_snoc, hun.frames, hkeeps.frame]
    refine ⟨⟨⟨h.claimed, ?_, ?_, ?_, ?_, ?_, ?_, ?_, ?_, ?_, h.source⟩,
      { Guarantee.refl .reader sh with }⟩, ?_⟩
    · intro _
      refine ⟨hun.released, hun.terminal, hun.header, hun.abandoned, ?_, hframes⟩
      exact List.forall_mem_append.mpr ⟨hun.answers, List.forall_mem_singleton.mpr hkeeps.open_⟩
    · simp [hcell]
    · simp [hun.terminal]
    · exact final_snoc h.final (final_of_open hun.answers)
    · intro poll hmem code hgiven
      rcases List.mem_append.mp hmem with hold | hnew
      · exact absurd hgiven (hunder poll hold code)
      · rw [List.mem_singleton.mp hnew, given_of_open hkeeps.open_] at hgiven
        cases hgiven
    · simp [hun.header]
    · simp [hun.abandoned]
    · exact hframes ▸ List.prefix_rfl
    · exact List.forall_mem_append.mpr ⟨h.prompt, List.forall_mem_singleton.mpr hkeeps.prompt⟩
    · simp [Proceeds, hcell]
  | ends context handled _ hends =>
    refine ⟨⟨⟨?_, ?_, ?_, ?_, ?_, ?_, ?_, ?_, ?_, ?_, h.source⟩,
      ⟨.take .reader hcell, ?_, fun hsource => hsource⟩⟩, rfl, hun.released, rfl⟩
    · simp
    · simp
    · simp
    · simp [hun.terminal]
    · exact final_snoc h.final (final_of_open hun.answers)
    · intro poll hmem code hgiven
      rcases List.mem_append.mp hmem with hold | hnew
      · exact absurd hgiven (hunder poll hold code)
      · rw [List.mem_singleton.mp hnew] at hgiven
        rw [hends.code code hgiven]
    · simp [hun.header]
    · simp [hun.abandoned]
    · dsimp only
      rw [delivered_snoc, obtained_snoc, hun.frames]
      rcases hends.frame with hnone | hsome
      · rw [hnone]
        simp
      · exact hsome ▸ List.prefix_rfl
    · exact List.forall_mem_append.mpr ⟨h.prompt, List.forall_mem_singleton.mpr hends.prompt⟩
    · intro other _ hheld
      rw [hcell] at hheld
      cases hheld

/-- A poll of an ended response gets the status that waits for it, or the end. -/
theorem Inv.poll_closed (h : Inv config sh) (hclosed : sh.custody ≠ .cell)
    (hunheld : sh.custody ≠ .held .reader) {out : Shared Error} {answer : Answer Error}
    (hstep : sh.takeTerminal = (out, answer)) :
    Moves config .reader sh { out with
      polls := sh.polls ++ [⟨false, sh.context, sh.context, none, answer⟩] } ∧
      Proceeds .reader { out with
        polls := sh.polls ++ [⟨false, sh.context, sh.context, none, answer⟩] } none := by
  simp only [Shared.takeTerminal] at hstep
  split at hstep
  · next trailers hterminal =>
    cases hstep
    have hwaiting := h.waiting trailers hterminal
    rcases hwaiting.generated with ⟨status, hgenerated, rfl, hclaimed⟩
    refine ⟨⟨⟨h.claimed, fun hcell => absurd hcell hclosed, h.released, by simp, ?_, ?_, ?_,
      h.abandoned, ?_, ?_, h.source⟩, { Guarantee.refl .reader sh with }⟩, hunheld⟩
    · exact final_snoc h.final (final_of_open hwaiting.answers)
    · refine List.forall_mem_append.mpr ⟨h.given, List.forall_mem_singleton.mpr ?_⟩
      rintro code ⟨⟩
      exact hclaimed
    · simp [hwaiting.header]
    · simpa [answerFrame, obtainedFrame] using h.frames
    · refine List.forall_mem_append.mpr ⟨h.prompt, List.forall_mem_singleton.mpr ?_⟩
      exact ⟨rfl, .inr ⟨status, hgenerated, rfl⟩⟩
  · next hterminal =>
    cases hstep
    refine ⟨⟨⟨h.claimed, fun hcell => absurd hcell hclosed, h.released, by simp [hterminal], ?_, ?_,
      ?_, h.abandoned, ?_, ?_, h.source⟩, { Guarantee.refl .reader sh with }⟩, hunheld⟩
    · exact final_snoc h.final fun _ _ _ => rfl
    · refine List.forall_mem_append.mpr ⟨h.given, List.forall_mem_singleton.mpr ?_⟩
      simp [givenCode]
    · intro code hheader
      rcases h.header code hheader with ⟨hclaimed, hended⟩
      exact ⟨hclaimed, List.forall_mem_append.mpr ⟨hended, List.forall_mem_singleton.mpr rfl⟩⟩
    · simpa [answerFrame, obtainedFrame] using h.frames
    · refine List.forall_mem_append.mpr ⟨h.prompt, List.forall_mem_singleton.mpr ?_⟩
      exact ⟨rfl, .inl rfl⟩

theorem Inv.poll_frame (h : Inv config sh) (hunheld : sh.custody ≠ .held .reader)
    {inner : InnerPoll Error} {during : OperationContext} {completion : Option Finishing}
    (hstep : pollFrame config sh inner during = (sh', completion)) :
    Moves config .reader sh sh' ∧ Proceeds .reader sh' completion := by
  by_cases hcell : sh.custody = .cell
  · have hcase : OpenPoll config sh _ (pollOpen config sh inner during) :=
      poll_open_cases hcell (h.untouched hcell).terminal inner during
    simp only [pollFrame, if_pos hcell] at hstep
    cases hstep
    exact h.poll_open hcell hcase
  · simp only [pollFrame, if_neg hcell] at hstep
    cases hstep
    exact h.poll_closed hcell hunheld rfl

theorem proceed_sound {completion : Option Finishing} {after : After}
    (h : Proceeds .reader sh completion) (hafter : after = .dropped → sh.custody ≠ .cell) :
    ReaderSound sh (proceed completion after) := by
  cases completion with
  | some finishing => exact h
  | none =>
    cases after with
    | dropped => exact ⟨h, hafter rfl⟩
    | _ => exact h

theorem reader_step {handle : Bool} {stage : ReaderStage} {input : Input Error} {task : Task}
    (h : Inv config sh) (hs : ReaderSound sh stage)
    (hstep : readerStep config sh handle stage input = some (sh', task)) :
    Moves config .reader sh sh' ∧ TaskSound config sh' .reader task := by
  simp only [readerStep] at hstep
  split at hstep
  · cases hstep
    refine ⟨.refl h, ?_⟩
    by_cases hhandle : handle = true
    · rw [if_pos hhandle]
      exact hs
    · rw [if_neg hhandle]
      exact hs
  · split at hstep
    · cases hstep
      exact ⟨.refl h, hs⟩
    · cases hstep
      exact ⟨.refl h, hs⟩
    · cases hstep
      exact ⟨.refl h, hs⟩
  · cases hstep
    exact ⟨.refl h, hs⟩
  · rcases hstatus : sh.status config .reader internal with ⟨out, completion⟩
    rw [hstatus] at hstep
    cases hstep
    rcases h.status hs (.inl rfl) hstatus with ⟨hmoves, hproceeds⟩
    exact ⟨hmoves, proceed_sound hproceeds (by simp)⟩
  · next inner during =>
    rcases hpoll : pollFrame config sh inner during with ⟨out, completion⟩
    rw [hpoll] at hstep
    cases hstep
    rcases h.poll_frame hs hpoll with ⟨hmoves, hproceeds⟩
    exact ⟨hmoves, proceed_sound hproceeds (by simp)⟩
  · next finishing after =>
    rcases hrelease : finishing.step sh with ⟨out, completion⟩
    rw [hrelease] at hstep
    cases hstep
    rcases h.release hs hrelease with ⟨hmoves, hproceeds⟩
    have hclosed : sh.custody ≠ .cell := by simp [Holds.custody hs]
    exact ⟨hmoves, proceed_sound hproceeds fun _ => hmoves.guarantee.custody.closed hclosed⟩
  · split at hstep
    · next hcell =>
      cases hstep
      have hun := h.untouched hcell
      have hmoves : Moves config .reader sh { sh with
          custody := .held .reader, claimed := some .cancelled, terminal := sh.terminal,
          abandoned := true } :=
        h.take hcell (by simp [hun.terminal]) fun _ => rfl
      exact ⟨hmoves, rfl, hun.released, rfl⟩
    · next hclosed =>
      cases hstep
      exact ⟨.refl h, hs, hclosed⟩
  · cases hstep

theorem settle_sound {completion : Option Finishing} {task : Task} (h : Inv config sh)
    (hproceeds : Proceeds .timer sh completion) (hstep : settle completion sh = (sh', task)) :
    Moves config .timer sh sh' ∧ TaskSound config sh' .timer task := by
  cases completion with
  | some finishing =>
    cases hstep
    exact ⟨.refl h, hproceeds⟩
  | none =>
    cases hstep
    refine ⟨⟨{ h with untouched := ?_, waiting := ?_ }, { Guarantee.refl .timer sh with }⟩, hproceeds⟩
    · intro hcell
      exact { h.untouched hcell with }
    · intro trailers htrailers
      exact { h.waiting trailers htrailers with }

theorem Guarantee.trans {sh'' : Shared Error} (h : Guarantee party sh sh')
    (h' : Guarantee party sh' sh'') : Guarantee party sh sh'' where
  custody := h.custody.trans h'.custody
  kept other hother hheld := by
    rcases h.kept other hother hheld with ⟨hreleased, hclaimed⟩
    rcases h'.kept other hother (h.custody.held other hother hheld) with ⟨hreleased', hclaimed'⟩
    exact ⟨hreleased'.trans hreleased, hclaimed'.trans hclaimed⟩
  source hsource := h'.source (h.source hsource)

theorem timer_step {stage : TimerStage} {input : Input Error} {task : Task} (h : Inv config sh)
    (hs : TimerSound config sh stage)
    (hstep : timerStep config sh stage input = some (sh', task)) :
    Moves config .timer sh sh' ∧ TaskSound config sh' .timer task := by
  simp only [timerStep] at hstep
  split at hstep
  · rcases Option.map_eq_some_iff.mp hstep with ⟨stopped, -, heq⟩
    cases heq
    exact ⟨.refl h, hs, .inr ⟨stopped, rfl⟩⟩
  · cases hstep
    exact ⟨.refl h, hs, .inl rfl⟩
  · cases hstep
    refine ⟨⟨{ h with untouched := ?_, waiting := ?_ }, { Guarantee.refl .timer sh with }⟩, hs⟩
    · intro hcell
      exact { h.untouched hcell with }
    · intro trailers htrailers
      exact { h.waiting trailers htrailers with }
  · next status =>
    rcases hstatus : sh.status config .timer status with ⟨out, completion⟩
    rw [hstatus] at hstep
    rcases h.status hs.1 hs.2 hstatus with ⟨hmoves, hproceeds⟩
    rcases settle_sound hmoves.inv hproceeds (Option.some.inj hstep) with ⟨hsettled, htask⟩
    exact ⟨⟨hsettled.inv, hmoves.guarantee.trans hsettled.guarantee⟩, htask⟩
  · next finishing =>
    rcases hrelease : finishing.step sh with ⟨out, completion⟩
    rw [hrelease] at hstep
    rcases h.release hs hrelease with ⟨hmoves, hproceeds⟩
    rcases settle_sound hmoves.inv hproceeds (Option.some.inj hstep) with ⟨hsettled, htask⟩
    exact ⟨⟨hsettled.inv, hmoves.guarantee.trans hsettled.guarantee⟩, htask⟩
  · cases hstep

theorem uploader_step {input : Input Error} {task : Task} (h : Inv config sh)
    (hunheld : sh.custody ≠ .held .uploader) (hstep : uploaderStep sh input = some (sh', task)) :
    Moves config .uploader sh sh' ∧ TaskSound config sh' .uploader task := by
  cases input with
  | uploaded ended =>
    cases hstep
    by_cases hended : ended = true
    · rw [if_pos hended]
      exact ⟨⟨h.take_source, .refl .uploader sh.custody, fun _ _ _ => ⟨rfl, rfl⟩, fun _ => rfl⟩,
        hunheld⟩
    · rw [if_neg hended]
      exact ⟨.refl h, hunheld⟩
  | _ => cases hstep

theorem env_step {stop : OperationContext} (h : Inv config sh)
    (hstep : (response config).env sh stop = some sh') :
    Inv config sh' ∧ ∀ other : Party, Guarantee other sh sh' := by
  simp only [response] at hstep
  split at hstep
  · cases hstep
    refine ⟨{ h with untouched := ?_, waiting := ?_ }, fun other => { Guarantee.refl other sh with }⟩
    · intro hcell
      exact { h.untouched hcell with }
    · intro trailers htrailers
      exact { h.waiting trailers htrailers with }
  · cases hstep

def proof (config : Config Error) : Proof (response config) where
  inv := Inv config
  knows party sh task := TaskSound config sh party task
  guarantee := Guarantee
  act_sound {i s t e s' t'} hinv hknows hact := by
    have hmoves : Moves config i s s' ∧ TaskSound config s' i t' := by
      cases i with
      | reader =>
        cases t with
        | reader handle stage => exact reader_step hinv hknows hact
        | _ => exact hknows.elim
      | timer =>
        cases t with
        | timer stage => exact timer_step hinv hknows hact
        | _ => exact hknows.elim
      | uploader =>
        cases t with
        | uploader => exact uploader_step hinv hknows hact
        | _ => exact hknows.elim
    exact ⟨hmoves.1.inv, hmoves.2, hmoves.1.guarantee⟩
  act_stable hne hguarantee hknows := task_stable hguarantee hne hknows
  env_sound {s x s'} hinv henv := by
    rcases env_step hinv henv with ⟨hinv', hguarantee⟩
    refine ⟨hinv', fun party task hknows => ?_⟩
    cases party with
    | reader => exact task_stable (hguarantee .timer) (by simp) hknows
    | timer => exact task_stable (hguarantee .reader) (by simp) hknows
    | uploader => exact task_stable (hguarantee .reader) (by simp) hknows

variable {opening : Opening}

theorem immediate_none (h : opening.immediate config = none) :
    (opening.attached config).status = none := by
  simp only [Opening.immediate] at h
  split at h
  · cases h
  · cases h
  · next hstatus _ => exact hstatus

theorem immediate_some {handled : Handled} {trailers : Option HeaderMap}
    (h : opening.immediate config = some (handled, trailers)) :
    (∀ code, (opening.attached config).status = some code → code = handled.code ∧ trailers = none) ∧
      ∀ headers, trailers = some headers → ∃ status, Generated config status ∧
        headers = status.trailers ∧ handled.code = status.code := by
  simp only [Opening.immediate] at h
  split at h
  · next code _ hstatus =>
    cases h
    refine ⟨fun given hgiven => ?_, by simp⟩
    rw [hstatus] at hgiven
    exact ⟨(Option.some.inj hgiven).symm, rfl⟩
  · next stopped hstatus _ =>
    cases h
    refine ⟨by simp [hstatus], fun headers hheaders => ?_⟩
    exact ⟨config.side.stopped stopped, .inr ⟨stopped, rfl⟩, (Option.some.inj hheaders).symm, rfl⟩
  · next hstatus _ =>
    split at h
    · cases h
      exact ⟨by simp [hstatus], by simp⟩
    · cases h

theorem opening_inv (opening : Opening) (config : Config Error) :
    Inv config (opening.shared config) := by
  cases himmediate : opening.immediate config with
  | none =>
    have hheader := immediate_none himmediate
    have huploads : (0 : ℕ) ≤ 1 := by decide
    simp only [Opening.shared, himmediate]
    refine ⟨by simp, fun _ => ?_, by simp, by simp, List.Pairwise.nil, by simp, ?_, by simp,
      List.prefix_rfl, by simp, ⟨huploads, fun _ => rfl⟩⟩
    · exact ⟨rfl, rfl, hheader, rfl, by simp, rfl⟩
    · simp [hheader]
  | some ended =>
    rcases ended with ⟨handled, trailers⟩
    rcases immediate_some himmediate with ⟨hstatus, htrailers⟩
    simp only [Opening.shared, himmediate]
    refine ⟨by simp, by simp, fun _ => ⟨handled, rfl, rfl, rfl⟩, ?_, List.Pairwise.nil, by simp, ?_,
      by simp, List.prefix_rfl, by simp, ?_⟩
    · intro headers hheaders
      rcases htrailers headers hheaders with ⟨status, hgenerated, heq, hcode⟩
      refine ⟨⟨status, hgenerated, heq, congrArg some hcode⟩, by simp, ?_⟩
      cases hgiven : (opening.attached config).status with
      | none => rfl
      | some code =>
        have hnone := (hstatus code hgiven).2
        rw [hnone] at hheaders
        cases hheaders
    · intro code hcode
      exact ⟨congrArg some (hstatus code hcode).1.symm, by simp⟩
    · refine ⟨?_, by simp⟩
      dsimp only
      split <;> omega

theorem opening_holds (opening : Opening) (config : Config Error) :
    (proof config).Holds (opening.world config) where
  inv := opening_inv opening config
  knows party := by
    have hcustody : ∀ party, (opening.shared config).custody ≠ .held party := by
      intro party
      simp only [Opening.shared]
      split <;> simp
    cases party with
    | reader => exact hcustody .reader
    | timer =>
      have hstage : ∀ waiting : Bool, TimerSound config (opening.shared config)
          (if waiting = true then .waiting else .done) := by
        intro waiting
        cases waiting with
        | true => exact hcustody .timer
        | false => exact hcustody .timer
      exact hstage _
    | uploader => exact hcustody .uploader

def quiet : Task → Bool
  | .reader _ (.finishing _ _) => false
  | .timer (.finishing _) => false
  | _ => true

def isDropped : Task → Bool
  | .reader _ .dropped => true
  | _ => false

def AtMostOnce (released : Released) : Prop :=
  released.bodies ≤ 1 ∧ released.permits ≤ 1 ∧ released.uploads ≤ 1 ∧ released.guards ≤ 1 ∧
    released.records.length ≤ 1

/-- Who is given a status: the peer with the headers, the reader with a poll, or nobody when the
response was dropped first. -/
structure RecordFits (config : Config Error) (sh : Shared Error) (code : Code) : Prop where
  header : ∀ given, sh.header = some given → code = given
  polls : ∀ poll ∈ sh.polls, ∀ given, givenCode config poll.answer = some given → code = given
  abandoned : sh.abandoned = true → code = .cancelled

structure OneOwner (config : Config Error) (w : World Party (Shared Error) Task) : Prop where
  atMostOnce : AtMostOnce w.shared.released
  exactlyOnce : (w.shared.custody ≠ .cell ∨ isDropped (w.tasks .reader) = true) →
    (∀ party, quiet (w.tasks party) = true) →
    ∃ handled, AllReleased w.shared.released handled ∧ w.shared.source = false
  recorded : ∀ handled ∈ w.shared.released.records, RecordFits config w.shared handled.code
  upload : w.shared.sources ≤ 1
  frames : deliveredFrames w.shared.polls <+: obtainedFrames w.shared.polls
  final : w.shared.polls.Pairwise Final
  prompt : ∀ poll ∈ w.shared.polls, Prompt config poll
  headerOnly : ∀ code, w.shared.header = some code → ∀ poll ∈ w.shared.polls, poll.answer = .ended

/-- Whoever has custody is in the middle of releasing. -/
theorem holder {task : Task} (hheld : sh.custody = .held party)
    (h : TaskSound config sh party task) :
    quiet task = false ∧ ∃ finishing, Holds party sh finishing := by
  cases party with
  | reader =>
    cases task with
    | reader handle stage =>
      cases stage with
      | finishing finishing after => exact ⟨rfl, finishing, h⟩
      | dropped => exact absurd hheld h.1
      | _ => exact absurd hheld h
    | _ => exact h.elim
  | timer =>
    cases task with
    | timer stage =>
      cases stage with
      | finishing finishing => exact ⟨rfl, finishing, h⟩
      | terminating status => exact absurd hheld h.1
      | _ => exact absurd hheld h
    | _ => exact h.elim
  | uploader =>
    cases task with
    | uploader => exact absurd hheld h
    | _ => exact h.elim

/-- What is released so far, and the record if there is one. -/
theorem Holds.counted {finishing : Finishing} (h : Holds party sh finishing) :
    AtMostOnce sh.released ∧ ∀ handled ∈ sh.released.records, sh.claimed = some handled.code := by
  have hclaimed := h.claimed
  have hprogress := h.progress
  rcases finishing with ⟨handled, place⟩
  have hrecord : ∀ record ∈ handled.toList, sh.claimed = some record.code := by
    intro record hmem
    rw [Option.mem_toList.mp hmem] at hclaimed
    exact hclaimed
  have hlength : handled.toList.length ≤ 1 := by cases handled <;> simp
  cases place with
  | record =>
    have hreleased : sh.released = ⟨0, 0, 0, 0, []⟩ := hprogress
    simp [AtMostOnce, hreleased]
  | body =>
    have hreleased : sh.released = ⟨0, 0, 0, 0, handled.toList⟩ := hprogress
    rw [hreleased]
    exact ⟨⟨by simp, by simp, by simp, by simp, hlength⟩, hrecord⟩
  | call =>
    have hreleased : sh.released = ⟨1, 0, 0, 0, handled.toList⟩ := hprogress
    rw [hreleased]
    exact ⟨⟨by simp, by simp, by simp, by simp, hlength⟩, hrecord⟩
  | permit =>
    have hreleased : sh.released = ⟨1, 0, 0, 0, [recorded ⟨handled, .permit⟩]⟩ := hprogress
    simp [AtMostOnce, hreleased, hclaimed]
  | upload =>
    have hreleased : sh.released = ⟨1, 1, 0, 0, [recorded ⟨handled, .upload⟩]⟩ := hprogress
    simp [AtMostOnce, hreleased, hclaimed]
  | guard =>
    have hreleased : sh.released = ⟨1, 1, 1, 0, [recorded ⟨handled, .guard⟩]⟩ := hprogress.1
    simp [AtMostOnce, hreleased, hclaimed]

theorem Inv.counted (h : Inv config sh) {tasks : Party → Task}
    (hknows : ∀ party, TaskSound config sh party (tasks party)) :
    AtMostOnce sh.released ∧ ∀ handled ∈ sh.released.records, sh.claimed = some handled.code := by
  cases hcustody : sh.custody with
  | cell =>
    rw [(h.untouched hcustody).released]
    simp [AtMostOnce]
  | released =>
    rcases h.released hcustody with ⟨handled, hall, hclaimed, -⟩
    rw [AllReleased] at hall
    simp [AtMostOnce, hall, hclaimed]
  | held party =>
    rcases (holder hcustody (hknows party)).2 with ⟨finishing, hholds⟩
    exact hholds.counted

theorem Inv.record_fits (h : Inv config sh) {code : Code} (hclaimed : sh.claimed = some code) :
    RecordFits config sh code where
  header given hgiven := by
    have hheader := (h.header given hgiven).1
    rw [hclaimed] at hheader
    exact Option.some.inj hheader
  polls poll hmem given hgiven := by
    have hpoll := h.given poll hmem given hgiven
    rw [hclaimed] at hpoll
    exact Option.some.inj hpoll
  abandoned habandoned := by
    have hdropped := h.abandoned habandoned
    rw [hclaimed] at hdropped
    exact Option.some.inj hdropped

theorem Inv.exactly_once (h : Inv config sh) {tasks : Party → Task}
    (hknows : ∀ party, TaskSound config sh party (tasks party)) (hclosed : sh.custody ≠ .cell)
    (hquiet : ∀ party, quiet (tasks party) = true) :
    ∃ handled, AllReleased sh.released handled ∧ sh.source = false := by
  cases hcustody : sh.custody with
  | cell => exact absurd hcustody hclosed
  | released =>
    rcases h.released hcustody with ⟨handled, hall, -, hsource⟩
    exact ⟨handled, hall, hsource⟩
  | held party =>
    have hbusy := (holder hcustody (hknows party)).1
    rw [hquiet party] at hbusy
    cases hbusy

/-- Over every response, both sides and every interleaving, one owner ends the response. -/
theorem one_terminal_owner (config : Config Error) (opening : Opening)
    (w : World Party (Shared Error) Task)
    (h : ((response config).system (opening.world config)).Reachable w) : OneOwner config w := by
  have hholds := (proof config).reachable_holds (opening_holds opening config) h
  have hinv : Inv config w.shared := hholds.inv
  have hknows : ∀ party, TaskSound config w.shared party (w.tasks party) := hholds.knows
  rcases hinv.counted hknows with ⟨honce, hrecords⟩
  refine ⟨honce, ?_, ?_, hinv.source.1, hinv.frames, hinv.final, hinv.prompt, ?_⟩
  · intro hclosed hquiet
    refine hinv.exactly_once hknows ?_ hquiet
    rcases hclosed with hclosed | hdropped
    · exact hclosed
    · have hreader := hknows .reader
      cases htask : w.tasks .reader with
      | reader handle stage =>
        rw [htask] at hreader hdropped
        cases stage with
        | dropped => exact hreader.2
        | _ => cases hdropped
      | timer stage =>
        rw [htask] at hreader
        exact hreader.elim
      | uploader =>
        rw [htask] at hreader
        exact hreader.elim
  · intro handled hmem
    exact hinv.record_fits (hrecords handled hmem)
  · intro code hcode
    exact (hinv.header code hcode).2

def watchedServer : Opening where
  headers := ⟨none, none, none, []⟩
  watched := true
  context := ⟨false, false⟩
  during := ⟨false, false⟩
  ended := false
  upload := true
  calm := by simp

def serverConfig : Config Unit := ⟨.server, fun _ => .unknown⟩

/-- A frame is read, then the deadline passes and the timer ends the response. -/
def expiredRun : List (Move Party (Input Unit) OperationContext) :=
  [.act .reader .read, .act .reader .next, .act .reader (.polled (.data [1]) ⟨false, false⟩),
    .env ⟨true, false⟩, .act .timer .next, .act .timer .next,
    .act .reader .read, .act .reader .next, .act .reader (.polled .pending ⟨false, false⟩),
    .act .timer .next, .act .timer .next, .act .timer .next, .act .timer .next, .act .timer .next,
    .act .timer .next]

theorem one_owner_expired : ∃ w, OneOwner serverConfig w ∧
    w.shared.polls.map PollRecord.answer = [.data [1], .generated Side.server.deadline.trailers] ∧
    w.shared.released = ⟨1, 1, 1, 1, [⟨.deadlineExceeded, some .gatewayTimeout⟩]⟩ := by
  have hrun : (((response serverConfig).system (watchedServer.world serverConfig)).run
      (watchedServer.world serverConfig) expiredRun).map
      (fun w => (w.shared.polls.map PollRecord.answer, w.shared.released)) =
      some ([.data [1], .generated Side.server.deadline.trailers],
        ⟨1, 1, 1, 1, [⟨.deadlineExceeded, some .gatewayTimeout⟩]⟩) := by
    decide
  rcases Option.map_eq_some_iff.mp hrun with ⟨w, hw, hseen⟩
  rcases Prod.mk.inj hseen with ⟨hanswers, hreleased⟩
  exact ⟨w, one_terminal_owner serverConfig watchedServer w (System.reachable_of_run hw), hanswers,
    hreleased⟩

def panickedRun : List (Move Party (Input Unit) OperationContext) :=
  [.act .reader .read, .act .reader .next, .act .reader (.polled .panicked ⟨true, false⟩)]

theorem late_panic_is_internal :
    ¬ ∀ w, ((response serverConfig).system (watchedServer.world serverConfig)).Reachable w →
      ∀ poll ∈ w.shared.polls, poll.found = true → ∀ stopped, poll.after.stopped = some stopped →
        poll.answer = .generated (Side.server.stopped stopped).trailers := by
  intro hall
  have hrun : (((response serverConfig).system (watchedServer.world serverConfig)).run
      (watchedServer.world serverConfig) panickedRun).map (fun w => w.shared.polls) =
      some [⟨true, ⟨false, false⟩, ⟨true, false⟩, some .panicked, .generated internal.trailers⟩] := by
    decide
  rcases Option.map_eq_some_iff.mp hrun with ⟨w, hw, hpolls⟩
  have hanswer := hall w (System.reachable_of_run hw) _ (by rw [hpolls]; exact List.mem_singleton_self _)
    rfl .deadline rfl
  revert hanswer
  decide

end GrpcTerminal
