import AimDb.Outbound.Ready.Passes
import AimDb.Outbound.Routes.Polled
import Mathlib.Algebra.GroupWithZero.Nat

/-!
# Every value is accounted for

A value that is read is counted once; what is staged is taken once, as it was staged.
-/

namespace AimDb.Outbound.Routes

open Json (Bytes)

variable {V Ctx : Type} {links : List (Link V Ctx)} {link : Link V Ctx} {s after : OutboundRoutes}
  {log events : List (Happened V Ctx)} {id : ℕ}

def Happened.verdictFor (id : ℕ) : Happened V Ctx → Option Verdict
  | .read route _ _ verdict => if route = id then some verdict else none
  | _ => none

def Happened.lagFor (id : ℕ) : Happened V Ctx → Option ℕ
  | .lagged route n => if route = id then some n.toNat else none
  | _ => none

def Happened.sent? : Happened V Ctx → Option OutboundMessage
  | .read _ _ _ verdict => verdict.message?
  | _ => none

def Happened.took? : Happened V Ctx → Option OutboundMessage
  | .took message => some message
  | _ => none

def Verdict.isFailure : Verdict → Bool
  | .serializeFailed _ => true
  | _ => false

@[simp] theorem Verdict.message?_sent (message : OutboundMessage) :
    (Verdict.sent message).message? = some message := rfl

@[simp] theorem Verdict.message?_topicOverflow : Verdict.topicOverflow.message? = none := rfl

@[simp] theorem Verdict.message?_serializeFailed (failure : SerializeFailure) :
    (Verdict.serializeFailed failure).message? = none := rfl

/-- The counters of a route against what became of its values. -/
structure Counts (stats : RouteStats) (verdicts : List Verdict) (lags : List ℕ) : Prop where
  sent : stats.sent = verdicts.countP (·.message?.isSome)
  topicOverflow : stats.topicOverflow = verdicts.countP (· = .topicOverflow)
  serializeFailed : stats.serializeFailed = verdicts.countP Verdict.isFailure
  lagged : stats.lagged = lags.sum

theorem Counts.read {stats : RouteStats} {verdicts : List Verdict} {lags : List ℕ}
    (counts : Counts stats verdicts lags) (verdict : Verdict) :
    Counts (verdict.counts stats) (verdicts ++ [verdict]) lags := by
  cases verdict with
  | sent message =>
      exact ⟨by simp [Verdict.counts, counts.sent],
        by simp [Verdict.counts, counts.topicOverflow],
        by simp [Verdict.counts, counts.serializeFailed, Verdict.isFailure], counts.lagged⟩
  | topicOverflow =>
      exact ⟨by simp [Verdict.counts, counts.sent],
        by simp [Verdict.counts, counts.topicOverflow],
        by simp [Verdict.counts, counts.serializeFailed, Verdict.isFailure], counts.lagged⟩
  | serializeFailed failure =>
      exact ⟨by simp [Verdict.counts, counts.sent],
        by simp [Verdict.counts, counts.topicOverflow],
        by simp [Verdict.counts, counts.serializeFailed, Verdict.isFailure], counts.lagged⟩

theorem Counts.total {stats : RouteStats} {verdicts : List Verdict} {lags : List ℕ}
    (counts : Counts stats verdicts lags) :
    verdicts.length = stats.sent + stats.topicOverflow + stats.serializeFailed := by
  rw [counts.sent, counts.topicOverflow, counts.serializeFailed]
  clear counts
  induction verdicts with
  | nil => rfl
  | cons verdict verdicts inductionHypothesis =>
      rw [List.length_cons, inductionHypothesis]
      cases verdict <;> simp [List.countP_cons, Verdict.isFailure] <;> omega

structure Books (links : List (Link V Ctx)) (s : OutboundRoutes) (log : List (Happened V Ctx)) :
    Prop where
  sized : Sized links s
  counted : ∀ id, Counts (s.stats id) (log.filterMap (Happened.verdictFor id))
    (log.filterMap (Happened.lagFor id))
  own : ∀ id ctx sample verdict, .read id ctx sample verdict ∈ log →
    ∃ link, links[id]? = some link ∧ link.Owns id ctx sample verdict
  inOrder : log.filterMap Happened.sent? =
    log.filterMap Happened.took? ++ (s.staged.bind (message links s)).toList
  bound : ∀ staged, s.staged = some staged → ∃ link, links[staged.id]? = some link

theorem books_new (links : List (Link V Ctx)) : Books links (new links) [] where
  sized := by simp [Sized, new]
  counted _ := ⟨rfl, rfl, rfl, rfl⟩
  own _ _ _ _ mem := by cases mem
  inOrder := rfl
  bound _ staged := by cases staged

theorem Books.congr (books : Books links s log) (scratch : after.scratch = s.scratch)
    (stats : ∀ id, (after.stats id).sent = (s.stats id).sent ∧
      (after.stats id).topicOverflow = (s.stats id).topicOverflow ∧
      (after.stats id).serializeFailed = (s.stats id).serializeFailed ∧
      (after.stats id).lagged = (s.stats id).lagged)
    (staged : after.staged = s.staged) : Books links after log where
  sized := by
    rw [Sized, scratch]
    exact books.sized
  counted id := by
    obtain ⟨sent, overflow, failed, lagged⟩ := stats id
    have counts := books.counted id
    exact ⟨sent.trans counts.sent, overflow.trans counts.topicOverflow,
      failed.trans counts.serializeFailed, lagged.trans counts.lagged⟩
  own := books.own
  inOrder := by
    have same : message links after = message links s := by
      funext staged
      rw [message, message, topicBuf, payloadBuf, topicBuf, payloadBuf, scratch]
    rw [staged, same]
    exact books.inOrder
  bound := by
    rw [staged]
    exact books.bound

theorem Books.idle (books : Books links s log)
    (quiet : ∀ event ∈ events, (∀ id, event.verdictFor id = none) ∧
      (∀ id, event.lagFor id = none) ∧ event.sent? = none ∧ event.took? = none) :
    Books links s (log ++ events) where
  sized := books.sized
  counted id := by
    rw [List.filterMap_append, List.filterMap_append,
      List.filterMap_eq_nil_iff.mpr fun event mem => (quiet event mem).1 id,
      List.filterMap_eq_nil_iff.mpr fun event mem => (quiet event mem).2.1 id,
      List.append_nil, List.append_nil]
    exact books.counted id
  own id ctx sample verdict mem := by
    rcases List.mem_append.mp mem with mem | mem
    · exact books.own id ctx sample verdict mem
    · have absent := (quiet _ mem).1 id
      simp [Happened.verdictFor] at absent
  inOrder := by
    rw [List.filterMap_append, List.filterMap_append,
      List.filterMap_eq_nil_iff.mpr fun event mem => (quiet event mem).2.2.1,
      List.filterMap_eq_nil_iff.mpr fun event mem => (quiet event mem).2.2.2,
      List.append_nil, List.append_nil]
    exact books.inOrder
  bound := books.bound

theorem Books.take (books : Books links s log) :
    Books links (takeStaged links s).1 (log ++ (takeStaged links s).2) := by
  unfold takeStaged
  have inOrder := books.inOrder
  generalize s.staged.bind (message links s) = taken at inOrder
  cases taken with
  | none =>
      refine ⟨books.sized, ?_, ?_, ?_, fun staged absent => by cases absent⟩
      · simpa using books.counted
      · simpa using books.own
      · simpa using inOrder
  | some taken =>
      refine ⟨books.sized, ?_, ?_, ?_, fun staged absent => by cases absent⟩
      · intro id
        simpa [List.filterMap_cons, Happened.verdictFor, Happened.lagFor] using books.counted id
      · intro id ctx sample verdict mem
        refine books.own id ctx sample verdict ?_
        simpa using mem
      · simpa [List.filterMap_cons, Happened.sent?, Happened.took?] using inOrder

theorem Books.finish (books : Books links s log) (call : Call) (outcome : Outcome) :
    Books links (finish links s call outcome).1 (log ++ (finish links s call outcome).2) := by
  have returned : ∀ event ∈ [(Happened.returned call outcome : Happened V Ctx)],
      (∀ id, event.verdictFor id = none) ∧ (∀ id, event.lagFor id = none) ∧
        event.sent? = none ∧ event.took? = none := by
    intro event mem
    obtain rfl := List.mem_singleton.mp mem
    exact ⟨fun _ => rfl, fun _ => rfl, rfl, rfl⟩
  have idle : Books links
      { s with running := none, held := call = .await ∧ outcome = .pending } log :=
    books.congr rfl (fun _ => ⟨rfl, rfl, rfl, rfl⟩) rfl
  have taken := idle.take.idle returned
  have left := idle.idle returned
  unfold Routes.finish
  cases call <;> cases outcome <;>
    first
    | exact left
    | (rw [List.append_assoc] at taken; exact taken)

theorem counted_update {stats : RouteStats} {route : ℕ} {event : Happened V Ctx}
    (counted : ∀ id, Counts (s.stats id) (log.filterMap (Happened.verdictFor id))
      (log.filterMap (Happened.lagFor id)))
    (own : Counts stats (log.filterMap (Happened.verdictFor route) ++
      (event.verdictFor route).toList)
      (log.filterMap (Happened.lagFor route) ++ (event.lagFor route).toList))
    (other : ∀ id, id ≠ route → event.verdictFor id = none ∧ event.lagFor id = none) :
    Counts (Function.update s.stats route stats id)
      ((log ++ [event]).filterMap (Happened.verdictFor id))
      ((log ++ [event]).filterMap (Happened.lagFor id)) := by
  by_cases same : id = route
  · subst same
    rw [Function.update_self, List.filterMap_append, List.filterMap_append]
    cases verdict : event.verdictFor id <;> cases lag : event.lagFor id <;>
      simpa [List.filterMap_cons, verdict, lag] using own
  · obtain ⟨noVerdict, noLag⟩ := other id same
    rw [Function.update_of_ne same, List.filterMap_append, List.filterMap_append]
    simpa [List.filterMap_cons, noVerdict, noLag] using counted id

theorem Books.poll (books : Books links s log) (isLink : links[id]? = some link)
    (empty : s.staged = none) {ctx : Ctx}
    {polled : Polled × OutboundRoutes × List (Happened V Ctx)}
    (polls : Polls links link s id ctx polled) : Books links polled.2.1 (log ++ polled.2.2) := by
  have inOrder := books.inOrder
  rw [empty] at inOrder
  cases polls with
  | quiet _ size =>
      rw [List.append_nil]
      refine ⟨size.trans books.sized, books.counted, books.own, ?_, books.bound⟩
      dsimp only
      rw [empty]
      exact inOrder
  | lags n size =>
      refine ⟨size.trans books.sized, fun route => ?_, fun route ctx sample verdict mem => ?_, ?_,
        books.bound⟩
      · refine counted_update books.counted ?_ fun other differs =>
          ⟨rfl, if_neg (Ne.symm differs)⟩
        have counts := books.counted id
        refine ⟨?_, ?_, ?_, ?_⟩ <;>
          simp [Happened.verdictFor, Happened.lagFor, counts.sent, counts.topicOverflow,
            counts.serializeFailed, counts.lagged]
      · exact books.own route ctx sample verdict (by simpa using mem)
      · simpa [count, empty, List.filterMap_cons, Happened.sent?, Happened.took?] using inOrder
  | @skips _ sample verdict size own unsent =>
      refine ⟨size.trans books.sized, fun route => ?_,
        fun route ctx' sample' verdict' mem => ?_, ?_, books.bound⟩
      · refine counted_update books.counted ?_ fun other differs =>
          ⟨if_neg (Ne.symm differs), rfl⟩
        simpa [Happened.verdictFor, Happened.lagFor] using (books.counted id).read verdict
      · rcases List.mem_append.mp mem with mem | mem
        · exact books.own route ctx' sample' verdict' mem
        · cases List.mem_singleton.mp mem
          exact ⟨link, isLink, own⟩
      · simpa [count, empty, List.filterMap_cons, Happened.sent?, Happened.took?, unsent]
          using inOrder
  | @stages _ sample staged taken size own named same =>
      refine ⟨size.trans books.sized, fun route => ?_,
        fun route ctx' sample' verdict' mem => ?_, ?_, fun found isFound => ?_⟩
      · refine counted_update books.counted ?_ fun other differs =>
          ⟨if_neg (Ne.symm differs), rfl⟩
        simpa [Happened.verdictFor, Happened.lagFor] using (books.counted id).read (.sent taken)
      · rcases List.mem_append.mp mem with mem | mem
        · exact books.own route ctx' sample' verdict' mem
        · cases List.mem_singleton.mp mem
          exact ⟨link, isLink, own⟩
      · have bound : (some staged).bind (message links
            { count { s with scratch := _ } id (Verdict.sent taken).counts with
              staged := some staged }) = some taken := same
        dsimp only
        rw [bound]
        simpa [List.filterMap_cons, Happened.sent?, Happened.took?] using inOrder
      · cases isFound
        exact ⟨link, named ▸ isLink⟩

/-- Where a call is, and whether a message is staged meanwhile. -/
structure Phase (s : OutboundRoutes) : Prop where
  idle : s.transport.pc = .idle ↔ s.running = none
  empty : s.transport.pc ≠ .idle → (∀ id, s.transport.pc ≠ .serving id) → s.staged = none

/-- A call that goes on and has nothing staged. -/
def Pc.Busy : Pc → Prop
  | .idle => False
  | .serving _ => False
  | _ => True

theorem Pc.Busy.ne_idle {pc : Pc} (busy : Pc.Busy pc) : pc ≠ .idle := by
  rintro rfl
  exact busy

theorem takeNext_busy (len : ℕ) (pass : Pass) : Pc.Busy (takeNext len pass) := by
  unfold takeNext takeLower
  dsimp only
  split
  · trivial
  · split <;> trivial

theorem scan_busy (routes : ReadyRoutes) (pass : Pass) (half : Half) (w : ℕ) :
    Pc.Busy (scan routes pass half w).1 := by
  unfold scan
  dsimp only
  split
  · trivial
  · split
    · trivial
    · cases half with
      | lower => trivial
      | upper =>
          unfold takeLower
          dsimp only
          split <;> trivial

theorem scan_unreturned (routes : ReadyRoutes) (pass : Pass) (half : Half) (w : ℕ) :
    ∀ event ∈ (scan routes pass half w).2, ∀ outcome, event ≠ .returned outcome := by
  unfold scan
  dsimp only
  split
  · simp
  · split
    · simp
    · cases half <;> simp

theorem heed_unreturned {events : List Event} (s : OutboundRoutes)
    (unreturned : ∀ event ∈ events, ∀ outcome, event ≠ .returned outcome) :
    heed links s events = (s, []) := by
  induction events with
  | nil => rfl
  | cons event events inductionHypothesis =>
      rw [List.forall_mem_cons] at unreturned
      cases event with
      | returned outcome => exact absurd rfl (unreturned.1 outcome)
      | _ => exact inductionHypothesis unreturned.2

theorem finish_transport (s : OutboundRoutes) (call : Call) (outcome : Outcome) :
    (finish links s call outcome).1.transport = s.transport := by
  cases call <;> cases outcome <;> rfl

theorem finish_running (s : OutboundRoutes) (call : Call) (outcome : Outcome) :
    (finish links s call outcome).1.running = none := by
  cases call <;> cases outcome <;> rfl

theorem Phase.of_idle (idle : s.transport.pc = .idle) (running : s.running = none) : Phase s :=
  ⟨⟨fun _ => running, fun _ => idle⟩, fun busy => absurd idle busy⟩

theorem Phase.of_busy (running : s.running ≠ none) (busy : Pc.Busy s.transport.pc)
    (empty : s.staged = none) : Phase s :=
  ⟨⟨fun idle => absurd idle busy.ne_idle, fun none => absurd none running⟩,
    fun _ _ => empty⟩

theorem Phase.of_serving (running : s.running ≠ none) (serving : s.transport.pc = .serving id) :
    Phase s := by
  have busy : s.transport.pc ≠ .idle := by
    rw [serving]
    intro absurd
    cases absurd
  exact ⟨⟨fun idle => absurd idle busy, fun none => absurd none running⟩,
    fun _ free => absurd serving (free id)⟩

structure Kept (links : List (Link V Ctx)) (s : OutboundRoutes) (log : List (Happened V Ctx)) :
    Prop where
  phase : Phase s
  books : Books links s log

theorem Kept.finish (books : Books links s log) (idle : s.transport.pc = .idle) (call : Call)
    (outcome : Outcome) :
    Kept links (Routes.finish links s call outcome).1
      (log ++ (Routes.finish links s call outcome).2) := by
  refine ⟨.of_idle ?_ (finish_running s call outcome), books.finish call outcome⟩
  rw [finish_transport]
  exact idle

theorem Kept.heed {events : List Event} (books : Books links s log) (phase : Phase s)
    (unreturned : ∀ event ∈ events, ∀ outcome, event ≠ .returned outcome) :
    Kept links (Routes.heed links s events).1 (log ++ (Routes.heed links s events).2) := by
  rw [heed_unreturned s unreturned, List.append_nil]
  exact ⟨phase, books⟩

theorem Kept.returned (books : Books links s log) (idle : s.transport.pc = .idle)
    (running : s.running ≠ none) (outcome : Outcome) :
    Kept links (Routes.heed links s [.returned outcome]).1
      (log ++ (Routes.heed links s [.returned outcome]).2) := by
  obtain ⟨call, same⟩ := Option.ne_none_iff_exists'.mp running
  have finishes : Routes.heed links s [.returned outcome] = Routes.finish links s call outcome := by
    rw [Routes.heed, same]
  rw [finishes]
  exact Kept.finish books idle call outcome

theorem move_eq_some {input : Input} {last : OutboundRoutes × List (Happened V Ctx)}
    (moved : move links s input = some last) :
    ∃ after, Outbound.Stepped s.transport input after ∧
      heed links { s with transport := after.1 } after.2 = last := by
  obtain ⟨after, stepped, same⟩ := Option.map_eq_some_iff.mp moved
  exact ⟨after, stepped_of_step stepped, same⟩

theorem Kept.call (kept : Kept links s log) (running : s.running = none) (empty : s.staged = none)
    (call : Call) {last : OutboundRoutes × List (Happened V Ctx)}
    (moved : move links { s with running := some call } .call = some last) :
    Kept links last.1 (log ++ last.2) := by
  obtain ⟨⟨transport, events⟩, stepped, rfl⟩ := move_eq_some moved
  have books : Books links { s with running := some call, transport } log :=
    kept.books.congr rfl (fun _ => ⟨rfl, rfl, rfl, rfl⟩) rfl
  obtain ⟨before, stats, scratch, staged, held⟩ := s
  dsimp only at *
  cases stepped with
  | refuses => exact Kept.finish books rfl call .done
  | calls =>
      exact Kept.heed books (.of_busy (Option.some_ne_none call) (takeNext_busy _ _) empty)
        (by simp)

theorem Kept.move (kept : Kept links s log) {input : Input} (within : input ≠ .call)
    (unanswered : ∀ polled, input ≠ .answer polled)
    {last : OutboundRoutes × List (Happened V Ctx)} (moved : move links s input = some last) :
    Kept links last.1 (log ++ last.2) := by
  obtain ⟨⟨transport, events⟩, stepped, rfl⟩ := move_eq_some moved
  have books : Books links { s with transport } log :=
    kept.books.congr rfl (fun _ => ⟨rfl, rfl, rfl, rfl⟩) rfl
  obtain ⟨idle, empty⟩ := kept.phase
  obtain ⟨before, stats, scratch, staged, running, held⟩ := s
  dsimp only at *
  cases stepped with
  | refuses => exact absurd rfl within
  | calls => exact absurd rfl within
  | answers => exact absurd rfl (unanswered _)
  | @scans routes pass half w =>
      have called : running ≠ none := fun none => by cases idle.mpr none
      exact Kept.heed books
        (.of_busy called (scan_busy _ _ _ _) (empty (by simp) (by simp)))
        (scan_unreturned routes pass half w)
  | clears =>
      have called : running ≠ none := fun none => by cases idle.mpr none
      exact Kept.heed books (.of_busy called trivial (empty (by simp) (by simp))) (by simp)
  | serves =>
      have called : running ≠ none := fun none => by cases idle.mpr none
      exact Kept.returned books rfl called _
  | rewakes =>
      have called : running ≠ none := fun none => by cases idle.mpr none
      exact Kept.heed books (.of_busy called trivial (empty (by simp) (by simp))) (by simp)
  | notifies =>
      have called : running ≠ none := fun none => by cases idle.mpr none
      exact Kept.heed books
        (.of_busy called (takeNext_busy _ _) (empty (by simp) (by simp))) (by simp)
  | finishes =>
      have called : running ≠ none := fun none => by cases idle.mpr none
      exact Kept.returned books rfl called _
  | sets => exact Kept.heed books ⟨idle, empty⟩ (by simp)
  | wakes => exact Kept.heed books ⟨idle, empty⟩ (by simp)

theorem Polls.frame {ctx : Ctx} {polled : Polled × OutboundRoutes × List (Happened V Ctx)}
    (polls : Polls links link s id ctx polled) :
    polled.2.1.transport = s.transport ∧ polled.2.1.running = s.running ∧
      (polled.1 ≠ .staged → polled.2.1.staged = s.staged) := by
  cases polls with
  | quiet => exact ⟨rfl, rfl, fun _ => rfl⟩
  | lags => exact ⟨rfl, rfl, fun _ => rfl⟩
  | skips => exact ⟨rfl, rfl, fun _ => rfl⟩
  | stages => exact ⟨rfl, rfl, fun unstaged => absurd rfl unstaged⟩

theorem Phase.report {routes : ReadyRoutes} {pass : Pass} {skips : ℕ} {polled : Polled}
    (running : s.running ≠ none) (empty : polled ≠ .staged → s.staged = none) :
    Phase { s with transport := Outbound.report routes pass id skips polled } := by
  cases polled with
  | pending => exact .of_busy running (takeNext_busy _ _) (empty (by decide))
  | staged => exact .of_serving running rfl
  | skipped =>
      refine .of_busy running ?_ (empty (by decide))
      dsimp only
      unfold Outbound.report
      dsimp only
      split <;> trivial
  | closed => exact .of_busy running (takeNext_busy _ _) (empty (by decide))

theorem Kept.answer (kept : Kept links s log) {ctx : Ctx} {reading : Reading V}
    {last : OutboundRoutes × List (Happened V Ctx)}
    (answered : poll? links s ctx reading = some last) : Kept links last.1 (log ++ last.2) := by
  unfold poll? at answered
  split at answered
  next pass id skips here =>
    cases isLink : links[id]? with
    | none =>
        rw [isLink] at answered
        cases answered
    | some link =>
        rw [isLink] at answered
        have empty : s.staged = none := kept.phase.empty (by simp [here]) (by simp [here])
        have called : s.running ≠ none := fun none => by
          have idle := kept.phase.idle.mpr none
          rw [here] at idle
          cases idle
        have did := polls isLink kept.books.sized ctx reading
        dsimp only at answered
        generalize poll links s link id ctx reading = polled at answered did
        have books := kept.books.poll isLink empty did
        obtain ⟨transport, running, unstaged⟩ := did.frame
        obtain ⟨moved, isMoved, rfl⟩ := Option.map_eq_some_iff.mp answered
        obtain ⟨after, stepped, rfl⟩ := move_eq_some isMoved
        dsimp only
        rw [← List.append_assoc]
        rw [transport] at stepped
        cases same : s.transport with
        | mk routes pc =>
            rw [same] at stepped here
            dsimp only at here
            subst here
            cases stepped with
            | answers =>
                refine Kept.heed (books.congr rfl (fun _ => ⟨rfl, rfl, rfl, rfl⟩) rfl)
                  (Phase.report ?_ ?_) (by simp)
                · rw [running]
                  exact called
                · intro notStaged
                  rw [unstaged notStaged]
                  exact empty
  · cases answered

theorem Kept.step (kept : Kept links s log) {action : Action V Ctx}
    (stepped : Routes.step links s action = some (after, events)) :
    Kept links after (log ++ events) := by
  cases action with
  | call call =>
      unfold Routes.step at stepped
      dsimp only at stepped
      split at stepped
      next free =>
        split at stepped
        next found staged =>
          have finished := Kept.finish kept.books (kept.phase.idle.mpr free.1) call
            (.ready found.id)
          rw [Option.some.inj stepped] at finished
          exact finished
        next staged => exact kept.call free.1 staged call stepped
      · cases stepped
  | advance => exact kept.move (by simp) (by simp) stepped
  | answer ctx reading => exact kept.answer stepped
  | take =>
      obtain ⟨free, same⟩ := Option.ite_none_right_eq_some.mp stepped
      have taken : Kept links (takeStaged links s).1 (log ++ (takeStaged links s).2) :=
        ⟨.of_idle (kept.phase.idle.mpr free.1) free.1, kept.books.take⟩
      rw [Option.some.inj same] at taken
      exact taken
  | drop =>
      obtain ⟨free, same⟩ := Option.ite_none_right_eq_some.mp stepped
      cases Option.some.inj same
      rw [List.append_nil]
      exact ⟨⟨kept.phase.idle, kept.phase.empty⟩,
        kept.books.congr rfl (fun _ => ⟨rfl, rfl, rfl, rfl⟩) rfl⟩
  | reject route =>
      obtain ⟨free, same⟩ := Option.ite_none_right_eq_some.mp stepped
      obtain ⟨rfl, rfl⟩ := Prod.mk.inj (Option.some.inj same)
      rw [List.append_nil]
      split
      · refine ⟨⟨kept.phase.idle, kept.phase.empty⟩,
          kept.books.congr rfl (fun id => ?_) rfl⟩
        by_cases this : id = route
        · subst this
          simp [count]
        · simp [count, this]
      · exact kept
  | set route => exact kept.move (by simp) (by simp) stepped
  | wake => exact kept.move (by simp) (by simp) stepped

theorem kept_of_reachable
    (reachable : Transition.Reachable (Routes.step links) (new links) s log) :
    Kept links s log := by
  refine reachable.invariant (Kept links) ?_ fun _ _ stepped kept => kept.step stepped
  exact ⟨.of_idle rfl rfl, books_new links⟩

theorem Link.Owns.route {ctx : Ctx} {sample : Sample V} {message : OutboundMessage}
    (owns : link.Owns id ctx sample (.sent message)) : message.route = id := by
  obtain ⟨before, -, same⟩ := owns
  unfold Link.verdict at same
  split at same
  · cases same
  · split at same
    · cases same
    · cases same
      rfl

/-- A serializer that writes every byte it reports makes the same of a value in any scratch. -/
theorem Link.Owns.verdict_eq {ctx : Ctx} {sample : Sample V} {verdict : Verdict}
    (owns : link.Owns id ctx sample verdict)
    (initializes : Initializes link.route link.info.payloadCapacity) {other : Bytes}
    (size : other.length = link.info.payloadCapacity) :
    link.verdict id ctx sample other = verdict := by
  obtain ⟨before, length, same⟩ := owns
  have payload := initializes ctx sample.value other before size length
  rw [← same, Link.verdict, Link.verdict, payload]

theorem sent_of_route (own : ∀ id ctx sample verdict, .read id ctx sample verdict ∈ log →
      ∃ link : Link V Ctx, links[id]? = some link ∧ link.Owns id ctx sample verdict)
        (id : ℕ) :
    (log.filterMap Happened.sent?).filter (·.route = id) =
      (log.filterMap (Happened.verdictFor id)).filterMap Verdict.message? := by
  induction log with
  | nil => rfl
  | cons event log inductionHypothesis =>
      have rest := inductionHypothesis fun id ctx sample verdict mem =>
        own id ctx sample verdict (List.mem_cons_of_mem _ mem)
      cases event with
      | read route ctx sample verdict =>
          obtain ⟨link, -, owns⟩ := own route ctx sample verdict List.mem_cons_self
          cases verdict with
          | sent message =>
              have named := owns.route
              by_cases same : route = id <;>
                simp [Happened.sent?, Happened.verdictFor, named, same, rest]
          | _ =>
              by_cases same : route = id <;>
                simp [List.filterMap_cons, Happened.sent?, Happened.verdictFor, same, rest]
      | _ => simpa [List.filterMap_cons, Happened.sent?, Happened.verdictFor] using rest

structure Accounted (links : List (Link V Ctx)) (s : OutboundRoutes)
    (log : List (Happened V Ctx)) : Prop where
  counted : ∀ id, Counts (s.stats id) (log.filterMap (Happened.verdictFor id))
    (log.filterMap (Happened.lagFor id))
  once : ∀ id, (log.filterMap (Happened.verdictFor id)).length =
    (s.stats id).sent + (s.stats id).topicOverflow + (s.stats id).serializeFailed
  inOrder : log.filterMap Happened.sent? =
    log.filterMap Happened.took? ++ (s.staged.bind (message links s)).toList
  staged : ∀ staged, s.staged = some staged → ∃ taken, message links s staged = some taken ∧
    taken.route = staged.id
  sent : ∀ id, (s.stats id).sent =
    ((log.filterMap Happened.took?).filter (·.route = id)).length +
      if (s.staged.map Staged.id) = some id then 1 else 0
  ordered : ∀ id, (log.filterMap Happened.took?).filter (·.route = id) <+:
    (log.filterMap (Happened.verdictFor id)).filterMap Verdict.message?
  own : ∀ id ctx sample verdict, .read id ctx sample verdict ∈ log →
    ∃ link, links[id]? = some link ∧ link.Owns id ctx sample verdict
  /-- The scratch has no part in it where the serializer writes every byte it reports. -/
  untouched : ∀ id ctx sample verdict link, .read id ctx sample verdict ∈ log →
    links[id]? = some link → Initializes link.route link.info.payloadCapacity →
    verdict = link.verdict id ctx sample (List.replicate link.info.payloadCapacity 0)

theorem toList_filter_length {staged : Option Staged} {taken : Option OutboundMessage}
    (same : taken.map OutboundMessage.route = staged.map Staged.id) (id : ℕ) :
    (taken.toList.filter (·.route = id)).length =
      if staged.map Staged.id = some id then 1 else 0 := by
  rw [← same]
  cases taken with
  | none => rfl
  | some taken =>
      by_cases here : taken.route = id <;> simp [here]

theorem Books.staged (books : Books links s log) {staged : Staged}
    (isStaged : s.staged = some staged) :
    ∃ taken, message links s staged = some taken ∧ taken.route = staged.id := by
  obtain ⟨link, isLink⟩ := books.bound staged isStaged
  exact ⟨_, by rw [message, isLink]; rfl, rfl⟩

theorem Books.staged_route (books : Books links s log) :
    (s.staged.bind (message links s)).map OutboundMessage.route = s.staged.map Staged.id := by
  cases isStaged : s.staged with
  | none => rfl
  | some staged =>
      obtain ⟨taken, same, route⟩ := books.staged isStaged
      rw [Option.bind_some, same, Option.map_some, Option.map_some, route]

/-- Every run accounts for every value. -/
theorem pulled_accounted (links : List (Link V Ctx)) (s : OutboundRoutes)
    (log : List (Happened V Ctx))
    (reachable : Transition.Reachable (Routes.step links) (new links) s log) :
    Accounted links s log := by
  have books := (kept_of_reachable reachable).books
  have split : ∀ id, (log.filterMap (Happened.verdictFor id)).filterMap Verdict.message? =
      (log.filterMap Happened.took?).filter (·.route = id) ++
        (s.staged.bind (message links s)).toList.filter (·.route = id) := by
    intro id
    rw [← sent_of_route books.own id, books.inOrder, List.filter_append]
  refine ⟨books.counted, fun id => (books.counted id).total, books.inOrder,
    fun staged isStaged => books.staged isStaged, fun id => ?_, fun id => ?_, books.own, ?_⟩
  · have sent : (s.stats id).sent =
        ((log.filterMap (Happened.verdictFor id)).filterMap Verdict.message?).length := by
      rw [(books.counted id).sent, List.length_filterMap_eq_countP]
    rw [sent, split, List.length_append, toList_filter_length books.staged_route]
  · rw [split]
    exact List.prefix_append _ _
  · intro id ctx sample verdict link mem isLink initializes
    obtain ⟨other, isOther, owns⟩ := books.own id ctx sample verdict mem
    cases isLink.symm.trans isOther
    exact (owns.verdict_eq initializes (List.length_replicate)).symm

def filling : Link UInt8 Unit where
  info := ⟨"a", 0, 2⟩
  route :=
    { writer := none
      serialize := fun _ value => .ok [value]
      serializeInto := some
        ⟨fun _ value out => (out.map fun _ => value, .ok out.length), fun _ _ _ => by simp⟩ }

/-- Reports its slice as written and leaves it as it is. -/
def lazy : Link UInt8 Unit where
  info := ⟨"b", 0, 2⟩
  route :=
    { writer := none
      serialize := fun _ value => .ok [value]
      serializeInto := some ⟨fun _ _ out => (out, .ok out.length), fun _ _ _ => rfl⟩ }

def pullsTwo : List (Action UInt8 Unit) :=
  [.call .next, .advance, .advance, .answer () (some (.ok ⟨7, ⟨0⟩⟩)), .advance,
    .call .next, .advance, .advance, .answer () (some (.ok ⟨9, ⟨1⟩⟩)), .advance]

/-- The second message carries the bytes of the first. -/
theorem leftover_taken : ∃ s log,
    Transition.Reachable (Routes.step [filling, lazy]) (new [filling, lazy]) s log ∧
      .read 1 () ⟨9, ⟨1⟩⟩ (.sent ⟨1, "b", [7, 7], ⟨1⟩⟩) ∈ log ∧
      .took ⟨1, "b", [7, 7], ⟨1⟩⟩ ∈ log ∧
      lazy.verdict 1 () ⟨9, ⟨1⟩⟩ [0, 0] = .sent ⟨1, "b", [0, 0], ⟨1⟩⟩ := by
  obtain ⟨outcome, same, held⟩ := Option.any_eq_true .. |>.mp
    (show (Transition.replay (Routes.step [filling, lazy]) (new [filling, lazy]) pullsTwo).any
      (fun outcome => decide (
        .read 1 () ⟨9, ⟨1⟩⟩ (.sent ⟨1, "b", [7, 7], ⟨1⟩⟩) ∈ outcome.2 ∧
          .took ⟨1, "b", [7, 7], ⟨1⟩⟩ ∈ outcome.2)) = true by decide +kernel)
  obtain ⟨wasRead, wasTaken⟩ := of_decide_eq_true held
  exact ⟨outcome.1, outcome.2, Transition.reachable_of_replay same, wasRead, wasTaken, by rfl⟩

/-- A run of one route: a value is staged, the call that staged it is repeated, and it is
taken. -/
theorem pulled_accounted_once : ∃ s log,
    Transition.Reachable (Routes.step [filling]) (new [filling]) s log ∧
      Accounted [filling] s log ∧ .took ⟨0, "a", [7, 7], ⟨0⟩⟩ ∈ log := by
  obtain ⟨outcome, same, held⟩ := Option.any_eq_true .. |>.mp
    (show (Transition.replay (Routes.step [filling]) (new [filling])
      [.call .stage, .advance, .advance, .answer () (some (.ok ⟨7, ⟨0⟩⟩)), .advance,
        .call .stage, .take]).any
      (fun outcome => decide (.took ⟨0, "a", [7, 7], ⟨0⟩⟩ ∈ outcome.2)) =
        true by decide +kernel)
  have reachable := Transition.reachable_of_replay same
  exact ⟨outcome.1, outcome.2, reachable, pulled_accounted _ _ _ reachable,
    of_decide_eq_true held⟩

end AimDb.Outbound.Routes
