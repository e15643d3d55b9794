import Fidensur.EngineStore
import Fidensur.RelyGuarantee

set_option autoImplicit false

namespace Fidensur

open CriticalSections ByteWords

def statusInProgress : UInt8 := 2

def opTypeAllocText : String := "ALLOC"
def opCommandComputeText : String := "COMPUTE"
def opCommandDiscloseText : String := "DISCLOSE"
def opCommandAttestText : String := "ATTEST"

/-- An action as the node posts it: what a result repeats of it, and its encoded instruction. -/
structure NodeAction where
  data : Action
  message : Bytes

structure HttpResponse where
  code : ℕ
  body : Bytes
  deriving DecidableEq

/-- The JSON codecs and the parts of the node's library that the server calls. -/
structure Wire where
  toHash : String → Bytes32
  decodeAction : Bytes → Except String NodeAction
  parseDataFixed : Bytes → Except String DataFixed
  marshal : ActionResult → Except String Bytes
  unmarshal : Bytes → Except String ActionResult

def textBytes (s : String) : Bytes := s.toUTF8.toList

/-- `http.Error` ends its text with a line break. -/
def httpError (code : ℕ) (text : String) : HttpResponse := ⟨code, textBytes (text ++ "\n")⟩

section Routing

variable (W : Wire)

def marshalResult (result : ActionResult) : HttpResponse :=
  match W.marshal result with
  | .ok body => ⟨200, body⟩
  | .error err => ⟨500, textBytes ("encoding result: " ++ err)⟩

def inProgressResult (action : Action) (df : DataFixed) : ActionResult where
  id := action.id
  submissionTag := action.submissionTag
  version := engineVersionText
  opType := df.opType
  opCommand := df.opCommand
  data := []
  status := statusInProgress
  log := "pending"

def shouldDefer (action : NodeAction) : Option DataFixed :=
  match W.parseDataFixed action.message with
  | .error _ => none
  | .ok df =>
    if df.opType ≠ W.toHash opTypeAllocText then none
    else if df.opCommand = W.toHash opCommandComputeText then some df else none

def routed (action : Action) (df : DataFixed) (now : ℤ) (draw : ℕ) : Option Request :=
  if df.opCommand = W.toHash opCommandComputeText then some (.compute action df now)
  else if df.opCommand = W.toHash opCommandDiscloseText then some (.disclose action df draw)
  else if df.opCommand = W.toHash opCommandAttestText then some (.attest action df)
  else none

def unsupportedType (opType : Bytes32) : String :=
  "unsupported op type: received " ++ hashHex opType ++ ", expected " ++
    hashHex (W.toHash opTypeAllocText) ++ " (" ++ opTypeAllocText ++ ")"

def unsupportedCommand (opCommand : Bytes32) : String :=
  "unsupported op command: received " ++ hashHex opCommand ++ ", expected one of [" ++
    hashHex (W.toHash opCommandComputeText) ++ " (" ++ opCommandComputeText ++ "), " ++
    hashHex (W.toHash opCommandDiscloseText) ++ " (" ++ opCommandDiscloseText ++ "), " ++
    hashHex (W.toHash opCommandAttestText) ++ " (" ++ opCommandAttestText ++ ")]"

variable (E : Enclave)

def processAction (action : NodeAction) (now : ℤ) (draw : ℕ) : Program Engine HttpResponse :=
  match W.parseDataFixed action.message with
  | .error err => .done ⟨400, textBytes ("decoding fixed data: " ++ err)⟩
  | .ok df =>
    if df.opType ≠ W.toHash opTypeAllocText then .done ⟨501, textBytes (unsupportedType W df.opType)⟩
    else
      match routed W action.data df now draw with
      | some q => (handler E q).map (marshalResult W)
      | none => .done ⟨501, textBytes (unsupportedCommand W df.opCommand)⟩

def acknowledge (action : Action) (df : DataFixed) : HttpResponse :=
  match W.marshal (inProgressResult action df) with
  | .ok body => ⟨200, body⟩
  | .error err => httpError 500 ("encoding in-progress result: " ++ err)

def actionHandler (body : Bytes) (now : ℤ) (draw : ℕ) : Program Engine HttpResponse :=
  match W.decodeAction body with
  | .error err => .done (httpError 400 ("decoding action: " ++ err))
  | .ok action =>
    match shouldDefer W action with
    | some df => .done (acknowledge W action.data df)
    | none => processAction W E action now draw

def deferred (body : Bytes) : Option NodeAction :=
  match W.decodeAction body with
  | .error _ => none
  | .ok action => if (shouldDefer W action).isSome then some action else none

/-- What `finishAsync` makes of the routed action, before it posts it. -/
def asyncResult (response : HttpResponse) : Option ActionResult :=
  if response.code ≠ 200 then none else (W.unmarshal response.body).toOption

end Routing

section Server

inductive Task
  | request (body : Bytes)
  | completion (action : NodeAction)

structure Job where
  ticket : ℕ
  task : Task
  now : ℤ
  draw : ℕ

def Job.background (job : Job) : Bool :=
  match job.task with
  | .request _ => false
  | .completion _ => true

def serveJob (W : Wire) (E : Enclave) (job : Job) : Program Engine HttpResponse :=
  match job.task with
  | .request body => actionHandler W E body job.now job.draw
  | .completion action => processAction W E action job.now job.draw

/-- The engine with the calls being served and the goroutines under way, the bodies that arrived so
far, and what the node's result endpoint accepted, newest first. -/
structure Server where
  pool : Pool Engine Job HttpResponse
  arrived : List Bytes
  posted : List (ℕ × Bytes)

def Server.initial : Server := ⟨.start emptyEngine, [], []⟩

/-- The calls a request starts: its own, and the goroutine it leaves behind. -/
def newJobs (W : Wire) (ticket : ℕ) (body : Bytes) (now later : ℤ) (draw : ℕ) : List Job :=
  ⟨ticket, .request body, now, draw⟩ ::
    (deferred W body).toList.map fun action => ⟨ticket, .completion action, later, draw⟩

def Wire.Carries (W : Wire) (S : Set Bytes) (body : Bytes) : Prop :=
  ∀ action df, W.decodeAction body = .ok action → W.parseDataFixed action.message = .ok df →
    df.originalMessage ∈ S

/-- Requests arrive at any time, calls and goroutines interleave, a finished goroutine gets its result
to the node or fails to, any of them may panic, and the engine may restart with nothing. -/
inductive Server.Step (W : Wire) (E : Enclave) (S : Set Bytes) : Server → Server → Prop
  | arrive (σ : Server) (body : Bytes) (now later : ℤ) (draw : ℕ) (h : W.Carries S body) :
      Step W E S σ
        { pool := { σ.pool with
            running := (newJobs W σ.arrived.length body now later draw).map
              (fun job => (job, serveJob W E job)) ++ σ.pool.running }
          arrived := σ.arrived ++ [body]
          posted := σ.posted }
  | work (σ : Server) (pool : Pool Engine Job HttpResponse)
      (h : CriticalSections.Step (serveJob W E) (fun _ => False) σ.pool pool) :
      Step W E S σ { σ with pool := pool }
  | post (engine : Engine) (finished : List (Job × HttpResponse))
      (before after : List (Job × Program Engine HttpResponse)) (job : Job) (response : HttpResponse)
      (arrived : List Bytes) (posted : List (ℕ × Bytes)) {result : ActionResult} {body : Bytes}
      (hjob : job.background = true) (hresult : asyncResult W response = some result)
      (hbody : W.marshal result = .ok body) :
      Step W E S ⟨⟨engine, before ++ (job, .done response) :: after, finished⟩, arrived, posted⟩
        ⟨⟨engine, before ++ after, (job, response) :: finished⟩, arrived, (job.ticket, body) :: posted⟩
  | panic (engine : Engine) (finished : List (Job × HttpResponse))
      (before after : List (Job × Program Engine HttpResponse)) (t : Job × Program Engine HttpResponse)
      (arrived : List Bytes) (posted : List (ℕ × Bytes)) :
      Step W E S ⟨⟨engine, before ++ t :: after, finished⟩, arrived, posted⟩
        ⟨⟨engine, before ++ after, finished⟩, arrived, posted⟩
  | restart (σ : Server) :
      Step W E S σ { σ with pool := ⟨emptyEngine, [], σ.pool.finished⟩ }

abbrev Server.Reaches (W : Wire) (E : Enclave) (S : Set Bytes) : Server → Server → Prop :=
  Relation.ReflTransGen (Server.Step W E S)

end Server

section Answers

def Request.action : Request → Action
  | .compute action .. | .disclose action .. | .attest action .. => action

def Request.df : Request → DataFixed
  | .compute _ df _ | .disclose _ df _ | .attest _ df => df

/-- What the node may sign and keep: an outcome, with the log its status prescribes. -/
def Terminal (r : ActionResult) : Prop :=
  (r.status = statusSuccess ∧ r.log = "ok") ∨
    (r.status = statusError ∧ r.data = [] ∧ ∃ err, r.log = "error: " ++ err)

structure ResultFor (action : Action) (df : DataFixed) (r : ActionResult) : Prop where
  id : r.id = action.id
  submissionTag : r.submissionTag = action.submissionTag
  opType : r.opType = df.opType
  opCommand : r.opCommand = df.opCommand
  terminal : Terminal r

variable {W : Wire} {E : Enclave} {S : Set Bytes}

theorem resultFor_error (action : Action) (df : DataFixed) (err : String) :
    ResultFor action df (buildResult action df [] statusError err) :=
  ⟨rfl, rfl, rfl, rfl, .inr ⟨rfl, rfl, err, rfl⟩⟩

theorem resultFor_success (action : Action) (df : DataFixed) (data : Bytes) :
    ResultFor action df (buildResult action df data statusSuccess "") :=
  ⟨rfl, rfl, rfl, rfl, .inl ⟨rfl, rfl⟩⟩

theorem handler_resultFor (hS : Set.InjOn E.keccak S) (q : Request) (hq : Admitted S q) :
    Keeps (Computed E S) Refreshes (ResultFor q.action q.df) (handler E q) := by
  cases q with
  | compute action df now =>
    apply keeps_bump
    intro _ _
    cases hround : computeRound E df.originalMessage now with
    | error err => exact keeps_fail (resultFor_error action df err)
    | ok round =>
      apply Keeps.locked
      · exact fun engine h => (h.store hS hq hround).1
      · exact fun engine h => (h.store hS hq hround).2
      · exact fun _ _ => .done (resultFor_success action df _)
  | disclose action df draw =>
    apply keeps_bump
    intro _ _
    cases discloseRequest E df.originalMessage with
    | error err => exact keeps_fail (resultFor_error action df err)
    | ok req =>
      apply Keeps.locked
      · exact fun engine h => h
      · exact fun engine _ => .refl engine
      · intro engine _
        cases discloseFrom E engine req draw with
        | error err => exact keeps_fail (resultFor_error action df err)
        | ok data => exact .done (resultFor_success action df data)
  | attest action df =>
    apply keeps_bump
    intro _ _
    cases attestRequest E df.originalMessage with
    | error err => exact keeps_fail (resultFor_error action df err)
    | ok req =>
      apply Keeps.locked
      · exact fun engine h => h
      · exact fun engine _ => .refl engine
      · intro engine _
        cases attestFrom E engine req with
        | error err => exact keeps_fail (resultFor_error action df err)
        | ok data => exact .done (resultFor_success action df data)

theorem routed_action {action : Action} {df : DataFixed} {now : ℤ} {draw : ℕ} {q : Request}
    (h : routed W action df now draw = some q) : q.action = action ∧ q.df = df := by
  unfold routed at h
  split_ifs at h
  all_goals
    cases h
    exact ⟨rfl, rfl⟩

/-- How a routed action can end: refused with its reason in the HTTP status, or answered by the
handler it is for. -/
inductive Processed (W : Wire) (E : Enclave) (S : Set Bytes) (action : NodeAction) : HttpResponse → Prop
  | malformed {err : String} {body : Bytes} (h : W.parseDataFixed action.message = .error err) :
      Processed W E S action ⟨400, body⟩
  | unsupportedType {df : DataFixed} {body : Bytes} (h : W.parseDataFixed action.message = .ok df)
      (htype : df.opType ≠ W.toHash opTypeAllocText) : Processed W E S action ⟨501, body⟩
  | unsupportedCommand {df : DataFixed} {body : Bytes} {now : ℤ} {draw : ℕ}
      (h : W.parseDataFixed action.message = .ok df) (hnone : routed W action.data df now draw = none) :
      Processed W E S action ⟨501, body⟩
  | answered {df : DataFixed} {now : ℤ} {draw : ℕ} {q : Request} {result : ActionResult}
      (h : W.parseDataFixed action.message = .ok df) (htype : df.opType = W.toHash opTypeAllocText)
      (hq : routed W action.data df now draw = some q) (hanswer : Answered E S q result)
      (hresult : ResultFor action.data df result) : Processed W E S action (marshalResult W result)

inductive Replied (W : Wire) (E : Enclave) (S : Set Bytes) (body : Bytes) : HttpResponse → Prop
  | undecoded {err : String} (h : W.decodeAction body = .error err) :
      Replied W E S body (httpError 400 ("decoding action: " ++ err))
  | acknowledged {action : NodeAction} {df : DataFixed} (h : W.decodeAction body = .ok action)
      (hdefer : shouldDefer W action = some df) : Replied W E S body (acknowledge W action.data df)
  | processed {action : NodeAction} {response : HttpResponse} (h : W.decodeAction body = .ok action)
      (hdefer : shouldDefer W action = none) (hresponse : Processed W E S action response) :
      Replied W E S body response

def Served (W : Wire) (E : Enclave) (S : Set Bytes) (job : Job) (response : HttpResponse) : Prop :=
  match job.task with
  | .request body => Replied W E S body response
  | .completion action => Processed W E S action response

theorem processAction_keeps (hS : Set.InjOn E.keccak S) (action : NodeAction) (now : ℤ) (draw : ℕ)
    (hcarried : ∀ df, W.parseDataFixed action.message = .ok df → df.originalMessage ∈ S) :
    Keeps (Computed E S) Refreshes (Processed W E S action) (processAction W E action now draw) := by
  unfold processAction
  cases hparse : W.parseDataFixed action.message with
  | error err => exact .done (.malformed hparse)
  | ok df =>
    simp only
    split_ifs with htype
    · exact .done (.unsupportedType hparse htype)
    · cases hrouted : routed W action.data df now draw with
      | none => exact .done (.unsupportedCommand hparse hrouted)
      | some q =>
        obtain ⟨haction, hdf⟩ := routed_action hrouted
        have hq : Admitted S q := by
          have hmem := hcarried df hparse
          rw [← hdf] at hmem
          cases q with
          | compute => exact hmem
          | disclose => trivial
          | attest => trivial
        apply Keeps.map _ ((handler_keeps hS q hq).and (handler_resultFor hS q hq))
        rintro result ⟨hanswer, hresult⟩
        rw [haction, hdf] at hresult
        exact .answered hparse (not_not.mp htype) hrouted hanswer hresult

theorem serveJob_keeps (hS : Set.InjOn E.keccak S) (job : Job)
    (hcarried : ∀ body, job.task = .request body → W.Carries S body)
    (haction : ∀ action df, job.task = .completion action → W.parseDataFixed action.message = .ok df →
      df.originalMessage ∈ S) :
    Keeps (Computed E S) Refreshes (Served W E S job) (serveJob W E job) := by
  obtain ⟨ticket, task, now, draw⟩ := job
  cases task with
  | request body =>
    simp only [serveJob, actionHandler]
    cases hdecode : W.decodeAction body with
    | error err => exact .done (.undecoded hdecode)
    | ok action =>
      simp only
      cases hdefer : shouldDefer W action with
      | some df => exact .done (.acknowledged hdecode hdefer)
      | none =>
        have hmem := hcarried body rfl action
        exact (processAction_keeps hS action now draw fun df hdf => hmem df hdecode hdf).mono
          fun response hresponse => .processed hdecode hdefer hresponse
  | completion action =>
    exact processAction_keeps hS action now draw fun df hdf => haction action df rfl hdf

end Answers

section Delivery

variable {W : Wire} {E : Enclave} {S : Set Bytes} {σ σ' : Server}

def Job.Origin (W : Wire) (arrived : List Bytes) (job : Job) : Prop :=
  ∃ body, arrived[job.ticket]? = some body ∧
    match job.task with
    | .request b => b = body
    | .completion action => deferred W body = some action

def Job.key (job : Job) : ℕ × Bool := (job.ticket, job.background)

theorem Job.Origin.append {arrived : List Bytes} {job : Job} (h : job.Origin W arrived) (body : Bytes) :
    job.Origin W (arrived ++ [body]) := by
  obtain ⟨b, hb, htask⟩ := h
  refine ⟨b, ?_, htask⟩
  rw [List.getElem?_append_left (List.getElem?_eq_some_iff.mp hb).1]
  exact hb

structure Server.Sound (W : Wire) (E : Enclave) (S : Set Bytes) (σ : Server) : Prop where
  carried : ∀ body ∈ σ.arrived, W.Carries S body
  safe : Safe (Computed E S) Refreshes (Served W E S) σ.pool
  origin : ∀ job ∈ σ.pool.requests, job.Origin W σ.arrived
  keys : (σ.pool.requests.map Job.key).Nodup
  sent : (σ.posted.map Prod.fst).Sublist
    ((σ.pool.finished.filter fun t => t.1.background).map fun t => t.1.ticket)
  posted : ∀ t ∈ σ.posted, ∃ job response result, (job, response) ∈ σ.pool.finished ∧
    job.ticket = t.1 ∧ job.background = true ∧ asyncResult W response = some result ∧
    W.marshal result = .ok t.2

theorem deferred_some {body : Bytes} {action : NodeAction} (h : deferred W body = some action) :
    W.decodeAction body = .ok action ∧ ∃ df, shouldDefer W action = some df := by
  unfold deferred at h
  split at h
  · cases h
  · next a ha =>
    split_ifs at h with hdefer
    cases h
    exact ⟨ha, Option.isSome_iff_exists.mp hdefer⟩

theorem shouldDefer_some {action : NodeAction} {df : DataFixed} (h : shouldDefer W action = some df) :
    W.parseDataFixed action.message = .ok df ∧ df.opType = W.toHash opTypeAllocText ∧
      df.opCommand = W.toHash opCommandComputeText := by
  unfold shouldDefer at h
  split at h
  · cases h
  · next d hd =>
    split_ifs at h with htype hcommand
    cases h
    exact ⟨hd, not_not.mp htype, hcommand⟩

theorem mem_newJobs {ticket : ℕ} {body : Bytes} {now later : ℤ} {draw : ℕ} {job : Job}
    (h : job ∈ newJobs W ticket body now later draw) : job.ticket = ticket ∧
      (job.task = .request body ∨ ∃ action, deferred W body = some action ∧ job.task = .completion action) := by
  simp only [newJobs, List.mem_cons, List.mem_map, Option.mem_toList] at h
  rcases h with rfl | ⟨action, haction, rfl⟩
  · exact ⟨rfl, .inl rfl⟩
  · exact ⟨rfl, .inr ⟨action, haction, rfl⟩⟩

theorem newJobs_keeps (hS : Set.InjOn E.keccak S) {ticket : ℕ} {body : Bytes} {now later : ℤ} {draw : ℕ}
    (hcarries : W.Carries S body) {job : Job} (h : job ∈ newJobs W ticket body now later draw) :
    Keeps (Computed E S) Refreshes (Served W E S job) (serveJob W E job) := by
  obtain ⟨-, htask⟩ := mem_newJobs h
  apply serveJob_keeps hS
  · rintro b hb
    rcases htask with htask | ⟨action, -, htask⟩
    · rw [hb] at htask
      cases htask
      exact hcarries
    · rw [hb] at htask
      cases htask
  · intro action df haction hparse
    rcases htask with htask | ⟨action', hdeferred, htask⟩
    · rw [haction] at htask
      cases htask
    · rw [haction] at htask
      cases htask
      exact hcarries action df (deferred_some hdeferred).1 hparse

theorem newJobs_keys (ticket : ℕ) (body : Bytes) (now later : ℤ) (draw : ℕ) :
    ((newJobs W ticket body now later draw).map Job.key).Nodup := by
  unfold newJobs
  cases deferred W body with
  | none => exact List.nodup_singleton _
  | some action => simp [Job.key, Job.background]

theorem Server.Sound.arrive (hS : Set.InjOn E.keccak S) (h : σ.Sound W E S) {body : Bytes} {now later : ℤ}
    {draw : ℕ} (hcarries : W.Carries S body) :
    Server.Sound W E S
      { pool := { σ.pool with
          running := (newJobs W σ.arrived.length body now later draw).map
            (fun job => (job, serveJob W E job)) ++ σ.pool.running }
        arrived := σ.arrived ++ [body]
        posted := σ.posted } := by
  have hjobs : ((newJobs W σ.arrived.length body now later draw).map
      fun job => (job, serveJob W E job)).map Prod.fst = newJobs W σ.arrived.length body now later draw := by
    simp [List.map_map, Function.comp_def]
  constructor
  · exact List.forall_mem_append.mpr ⟨h.carried, List.forall_mem_singleton.mpr hcarries⟩
  · refine ⟨h.safe.shared, List.forall_mem_append.mpr ⟨?_, h.safe.running⟩, h.safe.finished⟩
    exact List.forall_mem_map.mpr fun job hjob => newJobs_keeps hS hcarries hjob
  · intro job hjob
    simp only [Pool.requests, List.map_append, hjobs, List.append_assoc, List.mem_append] at hjob
    rcases hjob with hjob | hjob
    · obtain ⟨hticket, htask⟩ := mem_newJobs hjob
      refine ⟨body, by rw [hticket]; exact List.getElem?_concat_length, ?_⟩
      rcases htask with htask | ⟨action, haction, htask⟩
      · simp only [htask]
      · simpa only [htask] using haction
    · exact (h.origin job (List.mem_append.mpr hjob)).append body
  · simp only [Pool.requests, List.map_append, hjobs, List.append_assoc]
    have hold : ((σ.pool.running.map Prod.fst ++ σ.pool.finished.map Prod.fst).map Job.key).Nodup := h.keys
    rw [List.map_append] at hold
    refine List.nodup_append.mpr ⟨newJobs_keys _ _ _ _ _, hold, ?_⟩
    intro key hkey key' hkey' heq
    obtain ⟨job, hjob, rfl⟩ := List.mem_map.mp hkey
    rw [← List.map_append] at hkey'
    obtain ⟨job', hjob', rfl⟩ := List.mem_map.mp hkey'
    obtain ⟨b, hb, -⟩ := h.origin job' hjob'
    have hlt := (List.getElem?_eq_some_iff.mp hb).1
    have hticket : job.ticket = job'.ticket := congrArg Prod.fst heq
    have hnew := (mem_newJobs hjob).1
    omega
  · exact h.sent
  · exact h.posted

theorem Server.Sound.step (hS : Set.InjOn E.keccak S) (h : σ.Sound W E S) (hstep : Server.Step W E S σ σ') :
    σ'.Sound W E S := by
  cases hstep with
  | arrive σ body now later draw hcarries => exact h.arrive hS hcarries
  | work σ pool hpool =>
    have hsafe := h.safe.step (fun _ hq => hq.elim) hpool
    have hperm := requests_perm hpool
    have horigin : ∀ job ∈ pool.requests, job.Origin W σ.arrived := fun job hjob =>
      h.origin job (hperm.mem_iff.mp hjob)
    have hkeys : (pool.requests.map Job.key).Nodup := ((hperm.map Job.key).nodup_iff).mpr h.keys
    obtain ⟨shared, running, finished⟩ := pool
    obtain ⟨old, arrived, posted⟩ := σ
    have hfinished : ∃ new, finished = new ++ old.finished := by
      cases hpool with
      | arrive _ _ hq => exact hq.elim
      | advance => exact ⟨[], rfl⟩
      | finish s finished before after q r => exact ⟨[(q, r)], rfl⟩
    obtain ⟨new, rfl⟩ := hfinished
    refine ⟨h.carried, hsafe, horigin, hkeys, ?_, ?_⟩
    · rw [List.filter_append, List.map_append]
      exact h.sent.trans (List.sublist_append_right _ _)
    · intro t ht
      obtain ⟨job, response, result, hmem, hrest⟩ := h.posted t ht
      exact ⟨job, response, result, List.mem_append_right _ hmem, hrest⟩
  | @post engine finished before after job response arrived posted result body hjob hresult hbody =>
    have hpool : CriticalSections.Step (serveJob W E) (fun _ => False)
        ⟨engine, before ++ (job, .done response) :: after, finished⟩
        ⟨engine, before ++ after, (job, response) :: finished⟩ := .finish _ _ _ _ _ _
    have hperm := requests_perm hpool
    refine ⟨h.carried, h.safe.step (fun _ hq => hq.elim) hpool, ?_, ?_, ?_, ?_⟩
    · exact fun job hjob => h.origin job (hperm.mem_iff.mp hjob)
    · exact ((hperm.map Job.key).nodup_iff).mpr h.keys
    · simp only [List.filter_cons, hjob, ↓reduceIte, List.map_cons]
      exact h.sent.cons_cons _
    · intro t ht
      rcases List.mem_cons.mp ht with rfl | ht
      · exact ⟨job, response, result, List.mem_cons_self, rfl, hjob, hresult, hbody⟩
      · obtain ⟨job', response', result', hmem, hrest⟩ := h.posted t ht
        exact ⟨job', response', result', List.mem_cons_of_mem _ hmem, hrest⟩
  | panic engine finished before after t arrived posted =>
    have hsublist : ((before ++ after).map Prod.fst ++ finished.map Prod.fst).Sublist
        ((before ++ t :: after).map Prod.fst ++ finished.map Prod.fst) :=
      ((List.sublist_cons_self t after).append_left before |>.map Prod.fst).append_right _
    refine ⟨h.carried, h.safe.lose, ?_, ?_, h.sent, h.posted⟩
    · exact fun job hjob => h.origin job (hsublist.subset hjob)
    · exact h.keys.sublist (hsublist.map Job.key)
  | restart σ =>
    have hsublist : (σ.pool.finished.map Prod.fst).Sublist σ.pool.requests := List.sublist_append_right _ _
    refine ⟨h.carried, ⟨?_, List.forall_mem_nil _, h.safe.finished⟩, ?_, ?_, h.sent, h.posted⟩
    · exact fun _ _ hc => nomatch hc
    · exact fun job hjob => h.origin job (hsublist.subset hjob)
    · exact h.keys.sublist (hsublist.map Job.key)

theorem Server.sound_of_reaches (hS : Set.InjOn E.keccak S) (h : Server.Reaches W E S .initial σ) :
    σ.Sound W E S := by
  induction h with
  | refl =>
    refine ⟨List.forall_mem_nil _, ⟨?_, List.forall_mem_nil _, List.forall_mem_nil _⟩, List.forall_mem_nil _,
      List.nodup_nil, List.Sublist.refl _, List.forall_mem_nil _⟩
    exact fun _ _ hc => nomatch hc
  | tail _ hstep ih => exact ih.step hS hstep

def Server.replies (σ : Server) : List (Job × HttpResponse) :=
  σ.pool.finished.filter fun t => !t.1.background

/-- The body posted under a ticket is the outcome of the deferred instruction that came with it. -/
def Server.Delivered (W : Wire) (E : Enclave) (S : Set Bytes) (σ : Server) (ticket : ℕ) (body : Bytes) : Prop :=
  ∃ request action df result, σ.arrived[ticket]? = some request ∧ W.decodeAction request = .ok action ∧
    shouldDefer W action = some df ∧ W.marshal result = .ok body ∧ ResultFor action.data df result ∧
    ∃ now, Answered E S (.compute action.data df now) result

/-- The two halves of the codec agree, and every result has a text. -/
def Wire.RoundTrips (W : Wire) : Prop := ∀ r, ∃ body, W.marshal r = .ok body ∧ W.unmarshal body = .ok r

theorem asyncResult_marshalResult (hcodec : W.RoundTrips) (r : ActionResult) :
    asyncResult W (marshalResult W r) = some r := by
  obtain ⟨body, hmarshal, hunmarshal⟩ := hcodec r
  simp [asyncResult, marshalResult, hmarshal, hunmarshal, Except.toOption]

theorem completion_answered (hcodec : W.RoundTrips) {job : Job} {request : Bytes} {response : HttpResponse}
    {arrived : List Bytes} (horigin : job.Origin W arrived) (hjob : job.background = true)
    (hserved : Served W E S job response) (hrequest : arrived[job.ticket]? = some request) :
    ∃ action df result, W.decodeAction request = .ok action ∧ shouldDefer W action = some df ∧
      asyncResult W response = some result ∧ ResultFor action.data df result ∧
      ∃ now, Answered E S (.compute action.data df now) result := by
  obtain ⟨body, hbody, htask⟩ := horigin
  obtain rfl := Option.some.inj (hbody.symm.trans hrequest)
  obtain ⟨ticket, task, now, draw⟩ := job
  cases task with
  | request b => cases hjob
  | completion action =>
    obtain ⟨hdecode, df, hdefer⟩ := deferred_some htask
    obtain ⟨hparse, htype, hcommand⟩ := shouldDefer_some hdefer
    refine ⟨action, df, ?_⟩
    cases hserved with
    | malformed h =>
      rw [hparse] at h
      cases h
    | unsupportedType h hne =>
      obtain rfl := Except.ok.inj (hparse.symm.trans h)
      exact absurd htype hne
    | unsupportedCommand h hnone =>
      obtain rfl := Except.ok.inj (hparse.symm.trans h)
      simp [routed, hcommand] at hnone
    | @answered d now' draw' q result h _ hq hanswer hresult =>
      obtain rfl := Except.ok.inj (hparse.symm.trans h)
      rw [routed, if_pos hcommand] at hq
      obtain rfl := Option.some.inj hq
      exact ⟨result, hdecode, hdefer, asyncResult_marshalResult hcodec result, hresult, now', hanswer⟩

theorem reaches_returned (W : Wire) (E : Enclave) (S : Set Bytes)
    (before after : List (Job × Program Engine HttpResponse)) (job : Job) (prog : Program Engine HttpResponse)
    (engine : Engine) (finished : List (Job × HttpResponse)) (arrived : List Bytes)
    (posted : List (ℕ × Bytes)) : ∃ engine' response,
      Server.Reaches W E S ⟨⟨engine, before ++ (job, prog) :: after, finished⟩, arrived, posted⟩
        ⟨⟨engine', before ++ (job, .done response) :: after, finished⟩, arrived, posted⟩ := by
  induction prog generalizing engine with
  | done response => exact ⟨engine, response, .refl⟩
  | locked update next ih =>
    obtain ⟨engine', response, hreach⟩ := ih engine (update engine)
    refine ⟨engine', response, .head (.work _ _ (.advance engine finished before after job update next)) ?_⟩
    exact hreach

/-- Whatever interleaves, panics, gets lost or restarts: the node is answered at most once and told an
outcome at most once for what it posted, the outcome is that of its own instruction, and as long as
its goroutine is alive it can still be told. -/
theorem results_delivered_once (W : Wire) (E : Enclave) (S : Set Bytes) (hS : Set.InjOn E.keccak S)
    (hcodec : W.RoundTrips) (σ : Server) (h : Server.Reaches W E S .initial σ) :
    (σ.posted.map Prod.fst).Nodup ∧ (∀ t ∈ σ.posted, σ.Delivered W E S t.1 t.2) ∧
    (σ.replies.map fun t => t.1.ticket).Nodup ∧
    (∀ t ∈ σ.replies, ∃ request, σ.arrived[t.1.ticket]? = some request ∧ Replied W E S request t.2) ∧
    ∀ t ∈ σ.pool.running, t.1.background = true → t.1.ticket ∉ σ.posted.map Prod.fst ∧
      ∃ σ' body, Server.Reaches W E S σ σ' ∧ (t.1.ticket, body) ∈ σ'.posted := by
  have hsound := Server.sound_of_reaches hS h
  have htickets (b : Bool) :
      ((σ.pool.finished.filter fun t => t.1.background == b).map fun t => t.1.ticket).Nodup := by
    have hkeys : ((σ.pool.finished.map Prod.fst).map Job.key).Nodup :=
      hsound.keys.sublist ((List.sublist_append_right _ _).map Job.key)
    rw [List.map_map] at hkeys
    have hpairs := hkeys.sublist ((List.filter_sublist (p := fun t => t.1.background == b)).map _)
    refine List.Nodup.of_map (fun n => (n, b)) ?_
    rw [List.map_map]
    refine (List.map_congr_left ?_) ▸ hpairs
    intro t ht
    have hb : t.1.background = b := by simpa using (List.mem_filter.mp ht).2
    simp [Job.key, hb]
  have hbackground : (σ.posted.map Prod.fst).Sublist
      ((σ.pool.finished.filter fun t => t.1.background == true).map fun t => t.1.ticket) := by
    simpa using hsound.sent
  refine ⟨(htickets true).sublist hbackground, ?_, ?_, ?_, ?_⟩
  · intro t ht
    obtain ⟨job, response, result, hmem, hticket, hjob, hresult, hbody⟩ := hsound.posted t ht
    have horigin := hsound.origin job (List.mem_append_right _ (List.mem_map_of_mem hmem))
    obtain ⟨request, hrequest, -⟩ := id horigin
    obtain ⟨action, df, result', hdecode, hdefer, hresult', hfor, hanswer⟩ :=
      completion_answered hcodec horigin hjob (hsound.safe.finished _ hmem) hrequest
    obtain rfl := Option.some.inj (hresult.symm.trans hresult')
    rw [hticket] at hrequest
    exact ⟨request, action, df, result, hrequest, hdecode, hdefer, hbody, hfor, hanswer⟩
  · simpa [Server.replies] using htickets false
  · intro t ht
    obtain ⟨hmem, hjob⟩ := List.mem_filter.mp ht
    obtain ⟨⟨ticket, task, now, draw⟩, response⟩ := t
    obtain ⟨request, hrequest, htask⟩ :=
      hsound.origin _ (List.mem_append_right _ (List.mem_map_of_mem hmem))
    cases task with
    | request body =>
      subst htask
      exact ⟨_, hrequest, hsound.safe.finished _ hmem⟩
    | completion action => cases hjob
  · rintro ⟨job, prog⟩ ht hjob
    have hmem : job ∈ σ.pool.running.map Prod.fst := List.mem_map_of_mem ht
    constructor
    · intro hposted
      obtain ⟨t, hfinished, hticket⟩ := List.mem_map.mp (hsound.sent.subset hposted)
      obtain ⟨hfinished, hbackground⟩ := List.mem_filter.mp hfinished
      have hkeys := hsound.keys
      rw [Pool.requests, List.map_append] at hkeys
      refine (List.nodup_append.mp hkeys).2.2 _ (List.mem_map_of_mem hmem) _
        (List.mem_map_of_mem (List.mem_map_of_mem hfinished)) ?_
      simp only [Job.key, hjob, hbackground, hticket]
    · obtain ⟨before, after, hrunning⟩ := List.append_of_mem ht
      obtain ⟨⟨engine, running, finished⟩, arrived, posted⟩ := σ
      obtain rfl : running = before ++ (job, prog) :: after := hrunning
      obtain ⟨engine', response, hreach⟩ := reaches_returned W E S before after job prog engine
        finished arrived posted
      have hsound' := Server.sound_of_reaches hS (h.trans hreach)
      have horigin := hsound'.origin job (List.mem_append_left _ (by simp))
      obtain ⟨request, hrequest, -⟩ := id horigin
      have hserved : Served W E S job response := by
        have hkeeps := hsound'.safe.running (job, .done response) (by simp)
        cases hkeeps with
        | done h => exact h
      obtain ⟨action, df, result, -, -, hresult, -⟩ :=
        completion_answered hcodec horigin hjob hserved hrequest
      obtain ⟨body, hbody, -⟩ := hcodec result
      exact ⟨_, body, hreach.tail (.post engine' finished before after job response arrived posted hjob hresult
        hbody), List.mem_cons_self⟩

end Delivery

section Sample

def charCodes (s : String) : List ℕ := s.toList.map Char.toNat

def ofCharCodes (codes : List ℕ) : String := String.ofList (codes.map Char.ofNat)

theorem ofCharCodes_charCodes (s : String) : ofCharCodes (charCodes s) = s := by
  simp [ofCharCodes, charCodes, List.map_map, Function.comp_def, Char.ofNat_toNat]

/-- The server takes its JSON codec as given, so any codec that reads back what it wrote will do here: a
result is written as that many bytes as its number says. -/
instance resultNumbering : Encodable ActionResult :=
  Encodable.ofLeftInverse
    (fun r => (r.id, r.submissionTag.map UInt8.toNat, charCodes r.version, r.opType, r.opCommand,
      r.data.map UInt8.toNat, r.status.toNat, charCodes r.log))
    (fun t => ⟨t.1, t.2.1.map UInt8.ofNat, ofCharCodes t.2.2.1, t.2.2.2.1, t.2.2.2.2.1,
      t.2.2.2.2.2.1.map UInt8.ofNat, UInt8.ofNat t.2.2.2.2.2.2.1, ofCharCodes t.2.2.2.2.2.2.2⟩)
    (fun r => by simp [List.map_map, Function.comp_def, ofCharCodes_charCodes])

def sampleWire : Wire where
  toHash := bytes32Literal
  decodeAction body := .ok ⟨⟨99, []⟩, body⟩
  parseDataFixed _ := .ok ⟨opTypeAlloc, opCommandCompute, [42]⟩
  marshal r := .ok (List.replicate (Encodable.encode r) 0)
  unmarshal body :=
    match (Encodable.decode body.length : Option ActionResult) with
    | some r => .ok r
    | none => .error "unexpected end of JSON input"

theorem sampleWire_roundTrips : sampleWire.RoundTrips := by
  intro r
  refine ⟨_, rfl, ?_⟩
  simp [sampleWire, Encodable.encodek]

theorem results_delivered_once_sample : ∃ σ body,
    Server.Reaches sampleWire sampleEnclave {[42]} .initial σ ∧ (0, body) ∈ σ.posted ∧
    (σ.posted.map Prod.fst).Nodup ∧ σ.Delivered sampleWire sampleEnclave {[42]} 0 body := by
  have hcarries : sampleWire.Carries {[42]} [1] := by
    intro action df _ hparse
    cases hparse
    rfl
  have hdefer : shouldDefer sampleWire ⟨⟨99, []⟩, [1]⟩ = some ⟨opTypeAlloc, opCommandCompute, [42]⟩ := by
    simp only [shouldDefer, sampleWire, opTypeAllocText, opCommandComputeText, opTypeAlloc, opCommandCompute,
      ne_eq, not_true_eq_false, ↓reduceIte]
  have hdeferred : deferred sampleWire [1] = some ⟨⟨99, []⟩, [1]⟩ := by
    change (if (shouldDefer sampleWire ⟨⟨99, []⟩, [1]⟩).isSome then _ else none) = _
    rw [hdefer]
    rfl
  have harrived : Server.Reaches sampleWire sampleEnclave {[42]} .initial _ :=
    .single (.arrive .initial [1] 0 5 0 hcarries)
  obtain ⟨-, -, -, -, hprogress⟩ := results_delivered_once sampleWire sampleEnclave {[42]}
    (Set.injOn_singleton _ _) sampleWire_roundTrips _ harrived
  have hjob : (⟨0, .completion ⟨⟨99, []⟩, [1]⟩, 5, 0⟩ : Job) ∈ newJobs sampleWire 0 [1] 0 5 0 := by
    simp [newJobs, hdeferred]
  obtain ⟨-, σ, body, hreach, hposted⟩ :=
    hprogress _ (List.mem_append_left _ (List.mem_map_of_mem hjob)) rfl
  obtain ⟨hnodup, hdelivered, -⟩ := results_delivered_once sampleWire sampleEnclave {[42]}
    (Set.injOn_singleton _ _) sampleWire_roundTrips σ (harrived.trans hreach)
  exact ⟨σ, body, harrived.trans hreach, hposted, hnodup, hdelivered _ hposted⟩

end Sample

end Fidensur
