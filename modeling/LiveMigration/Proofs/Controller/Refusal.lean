import LiveMigration.Api.Serve
import LiveMigration.Proofs.Controller.Redirection
import LiveMigration.Proofs.Forwarding.Teardown

namespace LiveMigration

def Except.error? : Except ε α → Option ε
  | .ok _ => none
  | .error e => some e

theorem Except.error?_eq_some {x : Except ε α} {e : ε} : Except.error? x = some e ↔ x = .error e := by
  cases x <;> simp [Except.error?]

namespace Store

def refusal? (s : Store) : Action → Option Error
  | .write holder b => Except.error? (s.applyAs holder b)
  | .relocate addr egress mac host => Except.error? (s.relocate addr egress mac host)
  | .lease endpoint replacement job => Except.error? (s.lease endpoint replacement job)
  | .drop _ => none
  | .teardownAll => Except.error? s.teardownAll
  | .shutdown => Except.error? s.shutdown.2

def tryOp (leases : Table Addr JobId) (holder : Option JobId) (t : Tables) (op : Op) :
    Except Error (Tables × Bool) := do
  checkLease leases holder (t.touched op)
  t.apply op

variable {s : Store} {t : Tables} {leases : Table Addr JobId} {holder : Option JobId} {op : Op}
  {ops : List Op} {e : Error}

theorem stage_cons_eq (leases : Table Addr JobId) (holder : Option JobId) (t : Tables) (op : Op)
    (ops : List Op) : stage leases holder t (op :: ops) =
      (tryOp leases holder t op).bind fun r =>
        (stage leases holder r.1 ops).map fun r' => (r'.1, r.2 || r'.2) := by
  simp only [stage, tryOp, bind, Except.bind]
  cases checkLease leases holder (t.touched op) with
  | error => rfl
  | ok =>
    cases t.apply op with
    | error => rfl
    | ok r => cases stage leases holder r.1 ops <;> rfl

theorem stage_eq_error_iff : stage leases holder t ops = .error e ↔
    ∃ done op rest u c, ops = done ++ op :: rest ∧ stage leases holder t done = .ok (u, c) ∧
      tryOp leases holder u op = .error e := by
  induction ops generalizing t with
  | nil =>
    constructor
    · nofun
    · rintro ⟨done, op, rest, u, c, h, -⟩
      cases done <;> cases h
  | cons op ops ih =>
    cases hop : tryOp leases holder t op with
    | error e' =>
      simp only [stage_cons_eq, hop, Except.bind]
      constructor
      · intro h
        cases h
        exact ⟨[], op, ops, t, false, rfl, rfl, hop⟩
      · rintro ⟨done, op', rest, u, c, h, hdone, hop'⟩
        cases done with
        | nil =>
          cases h
          cases hdone
          rw [← hop, hop']
        | cons =>
          cases h
          simp [stage_cons_eq, hop, Except.bind] at hdone
    | ok r =>
      have hrest : stage leases holder t (op :: ops) = .error e ↔ stage leases holder r.1 ops = .error e := by
        simp only [stage_cons_eq, hop, Except.bind]
        cases stage leases holder r.1 ops <;> simp [Except.map]
      rw [hrest, ih]
      -- What goes before the operation that is refused begins with this one.
      constructor
      · rintro ⟨done, op', rest, u, c, rfl, hdone, hop'⟩
        refine ⟨op :: done, op', rest, u, r.2 || c, rfl, ?_, hop'⟩
        simp [stage_cons_eq, hop, hdone, Except.bind, Except.map]
      · rintro ⟨done, op', rest, u, c, h, hdone, hop'⟩
        cases done with
        | nil =>
          cases h
          cases hdone
          cases hop.symm.trans hop'
        | cons op'' done =>
          cases h
          rw [stage_cons_eq, hop] at hdone
          cases hs : stage leases holder r.1 done with
          | error e' => simp [hs, Except.bind, Except.map] at hdone
          | ok r' =>
            simp only [hs, Except.bind, Except.map, Except.ok.injEq, Prod.mk.injEq] at hdone
            exact ⟨done, op', rest, r'.1, r'.2, rfl, hs, hdone.1 ▸ hop'⟩

theorem refusal_write_iff : s.refusal? (.write holder ⟨ops⟩) = some e ↔
    stage s.leases holder s.tables ops = .error e := by
  rw [refusal?, Except.error?_eq_some, applyAs]
  cases stage s.leases holder s.tables ops <;> simp [bind, Except.bind, pure, Except.pure]

theorem act_of_refusal {a : Action} (hi : s.tables.Intact) (h : s.refusal? a = some e) : s.act a = s := by
  cases a with
  | write | relocate | lease | teardownAll =>
    simp only [refusal?, Except.error?_eq_some] at h
    simp only [act, h, settle]
  | drop => cases h
  | shutdown =>
    obtain ⟨-, n, hn⟩ := shutdown_eq_empty hi
    rw [refusal?, Except.error?_eq_some, hn] at h
    cases h

end Store

namespace Controller

/-- The error that an input is answered with. What a migration does by itself answers nobody. -/
def refusal? (c : Controller) : Input → Option Error
  | .submit now id r => Except.error? (c.submit now id r)
  | .cancel id => Except.error? (c.cancel id)
  | .reattach addr egress mac host => Except.error? (c.reattach addr egress mac host)
  | .cleanup => Except.error? c.cleanup
  | .store a => c.store.refusal? a
  | .start .. | .wake _ | .answer .. => none

variable {c : Controller} {i : Input} {e : Error}

theorem step_of_refusal (hi : c.store.tables.Intact) (h : c.refusal? i = some e) : c.step i = (c, []) := by
  cases i with
  | submit | cancel | reattach | cleanup =>
    simp only [refusal?, Except.error?_eq_some] at h
    simp only [step, h, settle, ite_self]
  | store a => rw [step, Store.act_of_refusal hi h]
  | start | wake | answer => cases h

theorem watch_of_refusal {inputs : List Input} (hi : (c.watch inputs).controller.store.tables.Intact)
    (h : (c.watch inputs).controller.refusal? i = some e) (more : List Input) :
    c.watch (inputs ++ i :: more) = c.watch (inputs ++ more) := by
  have hstep : (c.watch inputs).step i = c.watch inputs := by
    rw [Watch.step, step_of_refusal hi h, List.append_nil]
  calc c.watch (inputs ++ i :: more)
      = more.foldl Watch.step ((c.watch inputs).step i) := watch_append_cons ..
    _ = c.watch (inputs ++ more) := by rw [hstep, watch_append]

end Controller

namespace Api

/-- What a request asks a controller to do, if it can be read; those that only look ask nothing. -/
def Request.input? (r : Request) (now : Timestamp) (fresh : JobId) : Option Input :=
  if r.method = "POST" then
    match Route.ofTarget? r.target with
    | some .migrate => (Except.toOption r.read).map fun q : MigrateRequest =>
        .submit now fresh ⟨q.source, q.targetHost, q.newIdentity⟩
    | some .reattach => (Except.toOption r.read).map fun q : ReattachRequest =>
        .reattach q.addr q.egress q.mac q.host
    | some (.cancel segment) => (Route.jobId? segment).map .cancel
    | some .cleanup => some .cleanup
    | _ => none
  else none

theorem status_ofError_ne (e : Error) : (Response.ofError e).status ≠ 200 := by
  simp only [Response.ofError]
  cases e.kind <;> decide

end Api

namespace Controller

open Api

inductive Answers (c : Controller) : Option Input → Controller × Response → Prop
  | looked : r.1 = c → Answers c none r
  | refused : c.refusal? i = some e → Answers c (some i) (c, .ofError e)
  | done : c.refusal? i = none → response.status = 200 → Answers c (some i) ((c.step i).1, response)

variable {c : Controller} {i : Input} {r : Request} {now : Timestamp} {fresh : JobId}

theorem answers_settled [Jsonable β] {x : Except Error (Controller × α)} (hx : c.refusal? i = Except.error? x)
    (hs : (c.step i).1 = c.settle x) (f : α → β) :
    c.Answers (some i) (c.respond (x.map fun r => (r.1, f r.2))) := by
  cases x with
  | error e => exact .refused hx
  | ok r =>
    have h : c.Answers (some i) ((c.step i).1, .ok (f r.2)) := .done hx rfl
    rwa [hs] at h

theorem answers_migrate (hf : c.job? fresh = none) :
    c.Answers ((Except.toOption r.read).map fun q : MigrateRequest =>
      .submit now fresh ⟨q.source, q.targetHost, q.newIdentity⟩) (c.respond (c.serveMigrate now fresh r)) := by
  simp only [serveMigrate, bind]
  cases (r.read : Except Error MigrateRequest) with
  | error e => exact .looked rfl
  | ok q =>
    let i : Input := .submit now fresh ⟨q.source, q.targetHost, q.newIdentity⟩
    let x := (c.submit now fresh ⟨q.source, q.targetHost, q.newIdentity⟩).map (·, ())
    have hx : c.refusal? i = Except.error? x := by
      simp only [refusal?, i, x]
      cases c.submit now fresh ⟨q.source, q.targetHost, q.newIdentity⟩ <;> rfl
    have hs : (c.step i).1 = c.settle x := by
      simp only [step, hf, i, x]
      cases c.submit now fresh ⟨q.source, q.targetHost, q.newIdentity⟩ <;> rfl
    have h := answers_settled hx hs fun _ => MigrateResponse.mk fresh
    simp only [x] at h
    simp only [Except.bind]
    cases hq : c.submit now fresh ⟨q.source, q.targetHost, q.newIdentity⟩ <;> rwa [hq] at h

theorem answers_reattach : c.Answers ((Except.toOption r.read).map fun q : ReattachRequest =>
    .reattach q.addr q.egress q.mac q.host) (c.respond (c.serveReattach r)) := by
  simp only [serveReattach, bind]
  cases (r.read : Except Error ReattachRequest) with
  | error e => exact .looked rfl
  | ok q =>
    exact answers_settled (i := .reattach q.addr q.egress q.mac q.host) rfl rfl (ReattachResponse.mk "success")

theorem answers_cancel (segment : List Char) :
    c.Answers ((Route.jobId? segment).map .cancel) (c.serveRoute now fresh r (.cancel segment)) := by
  simp only [serveRoute]
  cases Route.jobId? segment with
  | none => exact .looked rfl
  | some id => exact answers_settled (i := .cancel id) rfl rfl Job.report

theorem answers_cleanup : c.Answers (some .cleanup) (c.respond c.serveCleanup) :=
  answers_settled (i := .cleanup) rfl rfl fun n => CleanupResponse.mk "success" (UInt64.ofNat n)

theorem serveRoute_of_get {route : Route} (h : route.method = .get) : (c.serveRoute now fresh r route).1 = c := by
  cases route with
  | jobs | health => rfl
  | job segment =>
    simp only [serveRoute]
    cases Route.jobId? segment with
    | none => rfl
    | some id =>
      simp only [serveJob]
      cases c.job? id <;> rfl
  | _ => cases h

theorem answers_serve (r : Request) (now : Timestamp) (hf : c.job? fresh = none) :
    c.Answers (r.input? now fresh) (c.serve now fresh r) := by
  cases hroute : Route.ofTarget? r.target with
  | none =>
    simp only [serve, Request.input?, hroute, ite_self]
    exact .looked rfl
  | some route =>
    by_cases hp : r.method = "POST"
    · simp only [serve, Request.input?, hroute, hp]
      cases route with
      | migrate => exact answers_migrate hf
      | reattach => exact answers_reattach
      | cancel segment => exact answers_cancel segment
      | cleanup => exact answers_cleanup
      | jobs | job | health => exact .looked rfl
    · simp only [serve, Request.input?, hroute, if_neg hp]
      apply Answers.looked
      split
      · next hm _ => exact serveRoute_of_get hm
      · next hm => exact absurd hm hp
      · next hm _ => exact serveRoute_of_get hm
      · rfl

theorem respond_of_status [Jsonable α] {x : Except Error (Controller × α)} (h : (c.respond x).2.status ≠ 200) :
    (c.respond x).1 = c := by
  cases x with
  | error => rfl
  | ok => exact absurd rfl h

theorem serve_of_status (h : (c.serve now fresh r).2.status ≠ 200) : (c.serve now fresh r).1 = c := by
  have hserved : ∀ route, (c.serveRoute now fresh r route).2.status ≠ 200 →
      (c.serveRoute now fresh r route).1 = c := by
    intro route h
    cases route with
    | jobs | job | health => exact serveRoute_of_get rfl
    | migrate | reattach | cleanup => exact respond_of_status h
    | cancel segment =>
      simp only [serveRoute] at h ⊢
      cases hid : Route.jobId? segment with
      | none => rfl
      | some id =>
        rw [hid] at h
        exact respond_of_status h
  cases hroute : Route.ofTarget? r.target with
  | none => rw [serve, hroute]
  | some route =>
    simp only [serve, hroute] at h ⊢
    split at h
    · exact hserved route h
    · exact hserved route h
    · exact hserved route h
    · rfl

theorem serve_of_input (hf : c.job? fresh = none) (hi : r.input? now fresh = some i)
    (hintact : c.store.tables.Intact) :
    ((c.serve now fresh r).2.status = 200 ↔ c.refusal? i = none) ∧ (c.serve now fresh r).1 = (c.step i).1 := by
  have h := answers_serve r now hf
  rw [hi] at h
  generalize c.serve now fresh r = served at h
  cases h with
  | done hn hs => exact ⟨iff_of_true hs hn, rfl⟩
  | @refused _ e he =>
    refine ⟨iff_of_false (status_ofError_ne e) ?_, ?_⟩
    · rw [he]
      nofun
    · rw [step_of_refusal hintact he]

/-- Wherever a history has come to: what is refused then leaves all as it was and calls nobody, and nothing
that comes later is other than without it. A batch is refused as a whole where one of its operations is,
although those before it could be carried out. A request over HTTP is an input, which is refused just if the
response is not a success. Of all that was done to the store, in the name of a migration too, what was refused
might as well be left out. -/
theorem refused_changes_nothing (config : Config) {s : Store} (hs : s.History past) (inputs : List Input) :
    let c := ((idle config s).watch inputs).controller
    (∀ i e, c.refusal? i = some e → c.step i = (c, []) ∧
      ∀ more, (idle config s).watch (inputs ++ i :: more) = (idle config s).watch (inputs ++ more)) ∧
    (∀ holder ops e, c.store.refusal? (.write holder ⟨ops⟩) = some e ↔
      ∃ done op rest u changed, ops = done ++ op :: rest ∧
        Store.stage c.store.leases holder c.store.tables done = .ok (u, changed) ∧
        Store.tryOp c.store.leases holder u op = .error e) ∧
    (∀ r now fresh, (c.serve now fresh r).2.status ≠ 200 → (c.serve now fresh r).1 = c) ∧
    (∀ r now fresh i, c.job? fresh = none → r.input? now fresh = some i →
      ((c.serve now fresh r).2.status = 200 ↔ c.refusal? i = none) ∧
      (c.serve now fresh r).1 = (c.step i).1) ∧
    ∀ done a rest e, (idle config s).history inputs = done ++ a :: rest →
      (done.foldl Store.act s).refusal? a = some e →
      (done.foldl Store.act s).act a = done.foldl Store.act s ∧ c.store = (done ++ rest).foldl Store.act s := by
  intro c
  have hi : s.tables.Intact := hs.intact
  have hintact : c.store.tables.Intact := Watch.intact_watch config hi inputs
  refine ⟨fun i e h => ⟨?_, ?_⟩, fun holder ops e => ?_, fun r now fresh => serve_of_status, ?http, ?history⟩
  · exact step_of_refusal hintact h
  · exact watch_of_refusal hintact h
  · rw [Store.refusal_write_iff, Store.stage_eq_error_iff]
  case http =>
    intro r now fresh i hf hr
    exact serve_of_input hf hr hintact
  case history =>
    intro done a rest e hsplit h
    have hsame := Store.act_of_refusal (Store.intact_foldl hi) h
    refine ⟨hsame, ?_⟩
    have hstore : c.store = ((idle config s).history inputs).foldl Store.act s := store_watch _ inputs
    rw [hstore, hsplit, List.foldl_append, List.foldl_cons, hsame, List.foldl_append]

theorem refused_changes_nothing_beside_migration :
    let e : Endpoint := ⟨⟨⟨10⟩, ⟨.replicate 6 1⟩⟩, "a", 1, "web"⟩
    let ops : List Op := [.putEndpoint e, .putRule ⟨⟨10⟩, 1, none⟩]
    let s := Store.empty.act (.write none ⟨ops⟩)
    let config := Config.plain [⟨"a", "a", 1, "eth0", "/var"⟩, ⟨"b", "b", 2, "eth0", "/var"⟩] []
    let now : Moment := ⟨0, 0, 0⟩
    let id := JobId.ofNat 7
    let write : Store.Action := .write none ⟨[.createGroup ⟨1⟩ 2, .removeRule ⟨10⟩]⟩
    let inputs : List Input := [.submit now.wall id ⟨⟨10⟩, "b", none⟩, .start now id, .store write]
    let c := ((idle config s).watch inputs).controller
    let refused : List Input := [.submit now.wall (.ofNat 8) ⟨⟨10⟩, "b", none⟩, .cancel (.ofNat 8),
      .reattach ⟨10⟩ 2 none none, .cleanup, .store (.lease ⟨10⟩ none (.ofNat 8)), .store write]
    let request : Request := ⟨"POST", "/cleanup", none, ""⟩
    s.History ops ∧ (∀ i ∈ refused, ∃ e, c.refusal? i = some e ∧ c.step i = (c, [])) ∧
      (c.serve now.wall (.ofNat 8) request).2.status = 409 ∧ (c.serve now.wall (.ofNat 8) request).1 = c ∧
      c.store = s.act (.lease ⟨10⟩ none id) := by
  intro e ops s config now id write inputs c refused request
  have hs : s.History ops := .of_write (by decide)
  obtain ⟨hinputs, hbatches, hstatus, hhttp, hhistory⟩ := refused_changes_nothing config hs inputs
  have hall : refused.all (fun i => (c.refusal? i).isSome) = true := by decide
  have hserved : (c.serve now.wall (.ofNat 8) request).2.status = 409 := by decide
  have hsplit : (idle config s).history inputs = [.lease ⟨10⟩ none id] ++ write :: [] := by rfl
  have hwrite : (Store.refusal? (s.act (.lease ⟨10⟩ none id)) write).isSome = true := by decide
  obtain ⟨e', hwrite⟩ := Option.isSome_iff_exists.1 hwrite
  refine ⟨hs, fun i hm => ?_, hserved, hstatus _ _ _ ?_, (hhistory _ _ _ e' hsplit hwrite).2⟩
  · obtain ⟨e, he⟩ := Option.isSome_iff_exists.1 (List.all_eq_true.1 hall i hm)
    exact ⟨e, he, (hinputs i e he).1⟩
  · rw [hserved]
    decide

end Controller

end LiveMigration
