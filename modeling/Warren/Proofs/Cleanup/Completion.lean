import Mathlib.Logic.Function.Iterate
import Warren.Proofs.Cleanup.Attempts
import Warren.Proofs.Service.Alone

/-!
# The end of a cleanup task

A task is attempted until it succeeds or the workflow is gone. An attempt after which it goes on
used up a fault that was scripted, so a service that is left alone with a request comes to an end
after a number of attempts that the faults bound: `request_comes_to_an_end`.
-/

namespace Warren.Cleanup

open Api Api.Server Service

variable {site : Site} {s t : Service} {a api : Server} {instants : List Span}

/-! ### Tasks -/

/-- What a task comes to that is attempted at some instant on some server, and then worked on at
later instants. -/
structure Task.Comes (task : Task) (now : Span) (a : Server) (instants : List Span)
    (t : Service) : Prop where
  length_le : instants.length ≤ a.pending
  paused : ∀ n before after, (now :: instants)[n]? = some before → instants[n]? = some after →
    after = before + (Backoff.fail^[n + 1] task.backoff).delay
  reached : task.aim.Reached task.name t.world.api
  asked : ∀ {P : Api.Request → Prop}, (∀ name, P (lookRequest name)) →
    (∀ other : Task, other.aim = task.aim → Asks P other.act) → Asked P a t.world.api

/-- A task that is worked on once more, after the delay of one more failure, keeps the delays of its
ladder from there on. -/
theorem paused_cons {b : Backoff} {now later : Span} {rest : List Span}
    (hlater : later = now + b.fail.delay)
    (h : ∀ n before after, (later :: rest)[n]? = some before → rest[n]? = some after →
      after = before + (Backoff.fail^[n + 1] b.fail).delay)
    (n : Nat) (before after : Span) (hbefore : (now :: later :: rest)[n]? = some before)
    (hafter : (later :: rest)[n]? = some after) :
    after = before + (Backoff.fail^[n + 1] b).delay := by
  cases n with
  | zero =>
    obtain rfl := Option.some.inj hbefore
    exact (Option.some.inj hafter).symm.trans hlater
  | succ n =>
    rw [Function.iterate_succ_apply]
    exact h n before after hbefore hafter

section

variable {task next fresh : Task} {b : Server} {now later : Span} {rest : List Span}

theorem Task.IsFit.comes_of_success (hfit : task.IsFit a)
    (htried : task.attempt a = (none, t.world.api)) : task.Comes now a [] t :=
  ⟨Nat.zero_le _, nofun, hfit.reached htried, fun _ hact => asked_attempt (hact task rfl) htried⟩

theorem Task.IsFit.comes_of_gone (hfit : task.IsFit a) (htried : task.attempt a = (some next, api))
    (hlater : later = now + next.backoff.delay) (hlook : next.refresh api = (none, t.world.api)) :
    task.Comes now a [later] t := by
  obtain ⟨rfl, hfewer, hnext⟩ := hfit.again htried
  refine ⟨?_, paused_cons hlater nofun, ?_, fun hlooks hact => ?_⟩
  · rw [List.length_singleton]
    omega
  · exact Aim.reached_of_absent _ (hnext.gone hlook)
  · exact Trans.trans (asked_attempt (hact task rfl) htried) (asked_refresh (hlooks _) hlook)

theorem Task.IsFit.comes_of_again (hfit : task.IsFit a) (htried : task.attempt a = (some next, api))
    (hlater : later = now + next.backoff.delay) (hlook : next.refresh api = (some fresh, b))
    (comes : fresh.Comes later b rest t) : task.Comes now a (later :: rest) t := by
  obtain ⟨rfl, hfewer, hnext⟩ := hfit.again htried
  obtain ⟨haim, hname, hbackoff, hle, -⟩ := hnext.refreshed hlook
  have hpaused := comes.paused
  rw [hbackoff] at hpaused
  refine ⟨?_, paused_cons hlater hpaused, ?_, fun hlooks hact => ?_⟩
  · have hlength := comes.length_le
    rw [List.length_cons]
    omega
  · have hreached := comes.reached
    rwa [haim, hname] at hreached
  · have hrest := comes.asked hlooks fun other hother => hact other (hother.trans haim)
    exact Trans.trans (asked_attempt (hact task rfl) htried)
      (Trans.trans (asked_refresh (hlooks _) hlook) hrest)

end

/-! ### The service -/

/-- The service after a conversation of a task with the server, with nothing to do. -/
def answered (v : Service) (api : Server) : Service :=
  { v.mapWorld fun w => { w with api := api } with ready := [] }

theorem alone_answered {v : Service} {work : Work} (h : v.Alone [] [work]) (api : Server) :
    (answered v api).Alone [] [] :=
  ⟨h.cleanups, h.limits, h.sweeps, h.polls, h.running, h.pauses_eq, rfl⟩

theorem state_perform_retry (task : Task) (v : Service) :
    (perform site (.retry task) { v with ready := [] }).2 =
      (pause (task.resume v.world.api).1 (answered v (task.resume v.world.api).2)).2 := rfl

theorem exists_resumed (site : Site) (alone : s.Alone [] []) (next : Task) : ∃ v : Service,
    v.Alone [] [.retry next] ∧ v.now = s.now + next.backoff.delay ∧
      ∀ instants t, Runs site (pause (some next) s).2 instants t ↔
        ∃ rest, instants = v.now :: rest ∧ Runs site (pause (next.resume s.world.api).1
          (answered v (next.resume s.world.api).2)).2 rest t := by
  obtain ⟨v, ready, hnow, hapi, hpaused⟩ := runs_pause_iff site alone next
  refine ⟨v, ready, hnow, fun instants t => ?_⟩
  rw [hpaused, ready.runs_iff_of_ready, state_perform_retry, hapi]
  rfl

/-- Every attempt that fails uses up a fault, so a task that is left alone comes to an end. -/
theorem Task.IsFit.comes (site : Site) {task : Task} {left : Option Task} (hfit : task.IsFit a)
    (htried : task.attempt a = (left, s.world.api)) (alone : s.Alone [] []) :
    (∃ instants t, Runs site (pause left s).2 instants t) ∧
      ∀ instants t, Runs site (pause left s).2 instants t → task.Comes s.now a instants t := by
  have ended {s : Service} (alone : s.Alone [] []) (instants : List Span) (t : Service) :
      Runs site s instants t ↔ instants = [] ∧ t = s := alone.runs_iff_of_idle
  generalize hbound : a.pending = bound
  induction bound using Nat.strongRecOn generalizing task a s left with
  | ind bound ih =>
    cases left with
    | none =>
      refine ⟨⟨[], s, (ended alone _ _).mpr ⟨rfl, rfl⟩⟩, fun instants t hruns => ?_⟩
      obtain ⟨rfl, rfl⟩ := (ended alone _ _).mp hruns
      exact hfit.comes_of_success htried
    | some next =>
      obtain ⟨-, hfewer, hnext⟩ := hfit.again htried
      obtain ⟨v, ready, hnow, hresumed⟩ := exists_resumed site alone next
      cases hlook : next.refresh s.world.api with
      | mk looked b =>
        cases looked with
        | none =>
          rw [resume_of_gone hlook] at hresumed
          have idle := alone_answered ready b
          refine ⟨⟨_, _, (hresumed _ _).mpr ⟨[], rfl, (ended idle _ _).mpr ⟨rfl, rfl⟩⟩⟩, ?_⟩
          intro instants t hruns
          obtain ⟨rest, rfl, hrest⟩ := (hresumed _ _).mp hruns
          obtain ⟨rfl, rfl⟩ := (ended idle _ _).mp hrest
          exact hfit.comes_of_gone htried hnow hlook
        | some fresh =>
          obtain ⟨-, -, -, hle, hfresh⟩ := hnext.refreshed hlook
          rw [resume_of_refreshed hlook] at hresumed
          cases hagain : fresh.attempt b with
          | mk left' api =>
            rw [hagain] at hresumed
            obtain ⟨⟨rest, t, hrest⟩, hcomes⟩ := ih b.pending (by omega) hfresh
              (s := answered v api) hagain (alone_answered ready api) rfl
            refine ⟨⟨_, t, (hresumed _ _).mpr ⟨rest, rfl, hrest⟩⟩, fun instants t hruns => ?_⟩
            obtain ⟨rest, rfl, hrest⟩ := (hresumed _ _).mp hruns
            exact hfit.comes_of_again htried hnow hlook (hcomes rest t hrest)

/-! ### Requests -/

/-- What a service comes to that is left alone with a request for the cleanup, and works on it at
some instants. -/
structure Request.IsServed (request : Request) (config : Configuration) (s : Service)
    (instants : List Span) (t : Service) : Prop where
  /-- There is no more than one attempt at an instant. -/
  length_le : instants.length ≤ s.world.api.pending + 1
  head_eq : instants.head? = some s.now
  /-- After the attempt that makes a number of failures the task pauses for the delay of the ladder
  after that many. -/
  paused : ∀ n before after, instants[n]? = some before → instants[n + 1]? = some after →
    after = before + (Backoff.fail^[n + 1] (.start config.retryDelay config.maxRetryDelay)).delay
  reached : request.aim.Reached request.name t.world.api
  /-- Only a workflow that is being deleted can be gone after it was torn down. -/
  kept : request.aim = .teardown → s.world.api.IsLive request.name → t.world.api.IsLive request.name
  absent : s.world.api.workflow? request.name = none → t.world.api.workflow? request.name = none
  not_created : ∀ q ∈ t.world.api.requests.drop s.world.api.requests.length, q.verb ≠ .create

/-- The work on a request is the first attempt of its task, after what comes before it. -/
theorem runs_clean_iff (site : Site) {v : Service} {request : Request}
    (h : v.Alone [] [.clean request]) :
    let tried := (Task.ofRequest (Startup.ladder site.config) request).attempt
      (prepare request v.world.api).2
    ∃ first : Service, first.Alone [] [] ∧ first.now = v.now ∧ first.world.api = tried.2 ∧
      ∀ instants t, Runs site v instants t ↔
        ∃ rest, instants = v.now :: rest ∧ Runs site (pause tried.1 first).2 rest t := by
  intro tried
  let first := (answered v tried.2).mapWorld (·.tellAll (prepare request v.world.api).1)
  have idle := alone_answered h tried.2
  have alone : first.Alone [] [] :=
    ⟨idle.cleanups, idle.limits, idle.sweeps, idle.polls, idle.running, idle.pauses_eq, rfl⟩
  refine ⟨first, alone, rfl, rfl, fun instants t => ?_⟩
  rw [h.runs_iff_of_ready]
  rfl

/-- Whichever of its requests fail, a service that is left alone with a request for the cleanup
comes to an end. It attempts to serve the request at most once more than there are faults, with the
delays of the ladder between the attempts. -/
theorem request_comes_to_an_end {request : Request} (handed : s.IsHanded request)
    (honest : s.world.api.IsHonest)
    (known : s.world.api.IsHeld request.name → finalizer ∈ request.finalizers) :
    (∃ instants t, s.Runs site instants t) ∧
      ∀ instants t, s.Runs site instants t → request.IsServed site.config s instants t := by
  obtain ⟨v, ready, hnow, hapi, htaken⟩ := handed.runs_iff site
  obtain ⟨first, alone, hfirst, htried, hruns⟩ := runs_clean_iff site ready
  rw [hapi] at htried hruns
  have prepared : Asked Api.Request.Releases s.world.api (prepare request s.world.api).2 :=
    asked_prepare (fun _ _ => trivial) request _
  have waned := prepared.wanes request.name
  have hfit : (Task.ofRequest (Startup.ladder site.config) request).IsFit
      (prepare request s.world.api).2 := by
    rw [ofRequest_eq]
    exact ⟨waned.isHonest honest, known ∘ waned.held⟩
  obtain ⟨⟨rest, t, hrest⟩, hcomes⟩ := hfit.comes site (Prod.ext rfl htried.symm) alone
  refine ⟨⟨_, t, (htaken _ _).mpr ((hruns _ _).mpr ⟨rest, rfl, hrest⟩)⟩, fun instants t hrun => ?_⟩
  obtain ⟨rest, rfl, hrest⟩ := (hruns _ _).mp ((htaken _ _).mp hrun)
  have comes := hcomes rest t hrest
  rw [ofRequest_eq, hfirst, hnow] at comes
  rw [hnow]
  have released : Asked Api.Request.Releases s.world.api t.world.api :=
    Trans.trans prepared (comes.asked (fun _ => trivial) fun other _ => asks_act other)
  have hle := waned.pending_le
  have hlength := comes.length_le
  refine ⟨?_, rfl, comes.paused, comes.reached, fun haim => ?_,
    (released.wanes request.name).absent, fun q hq => ?_⟩
  · rw [List.length_cons]
    omega
  · have looked : Asked Api.Request.Retains s.world.api (prepare request s.world.api).2 :=
      asked_prepare (fun _ _ => trivial) request _
    have retained := Trans.trans looked (comes.asked (P := Api.Request.Retains) (fun _ => trivial)
      fun other hother => by
        rw [Task.act, hother.trans haim]
        exact .discard (.patch ⟨other.finalizers, rfl⟩))
    exact retained.isLive
  · have hreleases := released.drop_requests q hq
    cases q with
    | create => exact hreleases.elim
    | _ => nofun

namespace Sample

/-- A workflow with two finalizers, and a server that refuses requests about it. -/
def refusing : Server :=
  (((Server.empty.put (workflowKey "fluxjob-1")
    (metadataPatch [("finalizers", .strings [finalizer, "other"])])).script .patch
      [some (.transport "refused")]).script .get
        [some (.status 500 "overloaded")]).script .delete [some (.status 409 "conflict")]

def request : Request := .delete "fluxjob-1" [finalizer]

/-- A service that is to delete that workflow. -/
def handed : Service := idle ((World.start refusing).handOver request) true

def bareSite : Site := ⟨Configuration.standard 0, ⟨[], []⟩, none, id⟩

end Sample

theorem request_comes_to_an_end_refusing :
    Sample.handed.IsHanded Sample.request ∧ Sample.refusing.IsHonest ∧
      finalizer ∈ Sample.request.finalizers ∧
      (∃ instants t, Sample.handed.Runs Sample.bareSite instants t) ∧
      ∀ instants t, Sample.handed.Runs Sample.bareSite instants t →
        Sample.request.IsServed Sample.bareSite.config Sample.handed instants t := by
  have handed : Sample.handed.IsHanded Sample.request := ⟨rfl, rfl, rfl, rfl, rfl, rfl, rfl, rfl⟩
  have honest : Sample.refusing.IsHonest := by
    unfold IsHonest
    decide +kernel
  have known : finalizer ∈ Sample.request.finalizers := List.mem_singleton_self finalizer
  exact ⟨handed, honest, known, request_comes_to_an_end handed honest fun _ => known⟩

/-- Two attempts fail, and the third one comes when the delays after one and two failures are
over. -/
example :
    let first := (settle Sample.bareSite Sample.handed).2
    let second := (settle Sample.bareSite (first.advance (.seconds 5))).2
    let third := (settle Sample.bareSite (second.advance (.seconds 10))).2
    [first, second, third].map (fun s => s.pauses.map Pause.deadline) =
      [[.seconds 5], [.seconds 15], []] := by
  decide +kernel

end Warren.Cleanup
