import PhpAgent.Agent.AppInfo

/-! The state of an application over sequences of replies. -/
namespace PhpAgent
namespace NrApp

/-- A new application. -/
def create {R T : Type} (info : AppInfoMax) : NrApp R T where
  state := .unknown
  info := info
  agentRunId := none
  connectReply := none
  urlRules := none
  txnRules := none
  segmentTerms := none
  entityGuid := none
  securityPolicies := none
  limits := ⟨0,0,0,0,0⟩
  harvest := ⟨0,0,0,0,0,0,0⟩

/-- A message given to `nr_cmd_appinfo_process_reply`, or a call of `nr_cmd_appinfo_tx`. -/
inductive Event
  | reply (data : Option Memory) (len : ℤ) (now : ℕ)
  | tx (daemonFd : ℤ) (queryInvalid : Bool) (received : Option (Memory × ℤ)) (now : ℕ)

/-- What the agent is told. -/
inductive Told
  | nothing
  | unknown
  | invalid
  | connected (reply : Flat.Table) (now : ℕ) (obj : NrObj)
  | malformed
  | stillValid

section Runs
variable {R T : Type} (makers : Makers R T) {app : NrApp R T}

def Event.apply : Event → NrApp R T → Status × NrApp R T
  | .reply data len now, app => processReply makers data len now app
  | .tx daemonFd queryInvalid received now, app => NrApp.tx makers daemonFd queryInvalid received now app

/-- What a body tells by its status. -/
def told (reply : Flat.Table) (now : ℕ) : ℤ → Told
  | 0 => .unknown
  | 1 => .invalid
  | 2 => .invalid
  | 3 =>
    match createFromJson makers reply 1 with
    | none => .malformed
    | some obj => .connected reply now obj
  | 4 => .stillValid
  | _ => .nothing

def toldBody (body : Option Flat.Table) (now : ℕ) : Told :=
  match body with
  | none => .nothing
  | some reply => told makers reply now (Flat.tableReadI8 reply 0 0)

def Event.told : Event → Told
  | .reply data len now => toldBody makers (replyBody data len) now
  | .tx daemonFd queryInvalid received now =>
    if daemonFd < 0 ∨ queryInvalid then .nothing
    else toldBody makers (replyBody (received.map Prod.fst) ((received.map Prod.snd).getD 0)) now

/-! ### One step -/

/-- The rules, the segment terms and the agent run id of two applications are the same. -/
structure SameRules (app app' : NrApp R T) : Prop where
  agentRunId : app'.agentRunId = app.agentRunId
  urlRules : app'.urlRules = app.urlRules
  txnRules : app'.txnRules = app.txnRules
  segmentTerms : app'.segmentTerms = app.segmentTerms

/-- What a step does to an application, by what it was told. -/
def Does (app : NrApp R T) : Told → Status × NrApp R T → Prop
  | .nothing, r => r.1 = .failure ∧ (r.2.state = app.state ∨ r.2.state = .unknown) ∧
      r.2.connectReply = app.connectReply ∧ SameRules app r.2
  | .unknown, r => r.1 = .success ∧ r.2.state = .unknown ∧ r.2.connectReply = app.connectReply ∧
      SameRules app r.2
  | .invalid, r => r.1 = .success ∧ r.2.state = .invalid ∧ r.2.connectReply = app.connectReply ∧
      SameRules app r.2
  | .connected _ _ obj, r => r.1 = .success ∧ r.2.state = .ok ∧ r.2.connectReply = some obj ∧
      r.2.agentRunId = some ((obj.getHashString "agent_run_id").getD [])
  | .malformed, r => r.1 = .failure ∧ (r.2.state = app.state ∨ r.2.state = .unknown) ∧
      r.2.connectReply = none ∧ SameRules app r.2
  | .stillValid, r => r.1 = .success ∧ r.2.state = .ok ∧ r.2.connectReply = app.connectReply ∧
      SameRules app r.2

lemma SameRules.refl (app : NrApp R T) : SameRules app app := ⟨rfl,rfl,rfl,rfl⟩

/-- A status that is none of the five is answered with a failure. -/
theorem processStatus_other (app : NrApp R T) (reply : Flat.Table) (now : ℕ) {status : ℤ}
    (h : ¬(status = 0 ∨ status = 1 ∨ status = 2 ∨ status = 3 ∨ status = 4)) :
    processStatus makers app reply now status = (.failure,app) := by
  unfold processStatus
  split <;> simp_all

lemma told_other (reply : Flat.Table) (now : ℕ) {status : ℤ}
    (h : ¬(status = 0 ∨ status = 1 ∨ status = 2 ∨ status = 3 ∨ status = 4)) :
    told makers reply now status = .nothing := by
  unfold told
  split <;> simp_all

lemma processStatus_does (app : NrApp R T) (reply : Flat.Table) (now : ℕ) (status : ℤ) :
    Does app (told makers reply now status) (processStatus makers app reply now status) := by
  by_cases h : status = 0 ∨ status = 1 ∨ status = 2 ∨ status = 3 ∨ status = 4
  · rcases h with rfl | rfl | rfl | rfl | rfl
    · exact ⟨rfl,rfl,rfl,⟨rfl,rfl,rfl,rfl⟩⟩
    · exact ⟨rfl,rfl,rfl,⟨rfl,rfl,rfl,rfl⟩⟩
    · exact ⟨rfl,rfl,rfl,⟨rfl,rfl,rfl,rfl⟩⟩
    · simp only [told,processStatus]
      cases createFromJson makers reply 1 with
      | none => exact ⟨rfl,.inl rfl,rfl,⟨rfl,rfl,rfl,rfl⟩⟩
      | some obj => exact ⟨rfl,rfl,rfl,rfl⟩
    · exact ⟨rfl,rfl,rfl,⟨rfl,rfl,rfl,rfl⟩⟩
  · rw [told_other makers reply now h,processStatus_other makers app reply now h]
    exact ⟨rfl,.inl rfl,rfl,.refl app⟩

lemma processReply_does (data : Option Memory) (len : ℤ) (now : ℕ) (app : NrApp R T) :
    Does app (toldBody makers (replyBody data len) now) (processReply makers data len now app) := by
  unfold toldBody processReply
  cases replyBody data len with
  | none => exact ⟨rfl,.inl rfl,rfl,.refl app⟩
  | some reply => exact processStatus_does makers app reply now _

/-- A query sets the state aside; what the reply does is not affected, except that a failure leaves
it unknown. -/
theorem does_of_unknown {said : Told} {r : Status × NrApp R T}
    (h : Does { app with state := .unknown } said r) :
    Does app said (r.1,match r.1 with
      | .success => r.2
      | .failure => { r.2 with state := .unknown }) := by
  obtain ⟨status,app'⟩ := r
  cases said with
  | nothing =>
    obtain ⟨rfl,-,hreply,hrules⟩ := h
    exact ⟨rfl,.inr rfl,hreply,⟨hrules.1,hrules.2,hrules.3,hrules.4⟩⟩
  | malformed =>
    obtain ⟨rfl,-,hreply,hrules⟩ := h
    exact ⟨rfl,.inr rfl,hreply,⟨hrules.1,hrules.2,hrules.3,hrules.4⟩⟩
  | connected reply now obj =>
    obtain ⟨rfl,hrest⟩ := h
    exact ⟨rfl,hrest⟩
  | unknown | invalid | stillValid =>
    obtain ⟨rfl,hstate,hreply,hrules⟩ := h
    exact ⟨rfl,hstate,hreply,⟨hrules.1,hrules.2,hrules.3,hrules.4⟩⟩

lemma Event.apply_does (e : Event) (app : NrApp R T) :
    Does app (e.told makers) (e.apply makers app) := by
  cases e with
  | reply data len now => exact processReply_does makers data len now app
  | tx daemonFd queryInvalid received now =>
    simp only [Event.told,Event.apply,NrApp.tx]
    by_cases hfd : daemonFd < 0
    · simp only [hfd,true_or,if_true]
      exact ⟨rfl,.inl rfl,rfl,.refl app⟩
    cases queryInvalid with
    | true =>
      simp only [hfd,or_true,if_true,if_false]
      exact ⟨rfl,.inr rfl,rfl,⟨rfl,rfl,rfl,rfl⟩⟩
    | false =>
      simp only [hfd,Bool.false_eq_true,or_self,if_false]
      have hdoes := does_of_unknown (processReply_does makers (received.map Prod.fst)
        ((received.map Prod.snd).getD 0) now { app with state := .unknown })
      revert hdoes
      cases processReply makers (received.map Prod.fst) ((received.map Prod.snd).getD 0) now
          { app with state := .unknown } with
      | mk status app' =>
        intro hdoes
        cases status <;> exact hdoes

/-! ### Runs -/

/-- An application in state OK holds a connect reply and its agent run id. -/
def Valid (app : NrApp R T) : Prop :=
  app.state = .ok → ∃ obj, app.connectReply = some obj ∧
    app.agentRunId = some ((obj.getHashString "agent_run_id").getD [])

/-- The step ends in a valid state, and a rejected reply leaves the data of the application. -/
def Sound (e : Event) (app : NrApp R T) : Prop :=
  Valid (e.apply makers app).2 ∧
    ((e.apply makers app).1 = .failure →
      (e.apply makers app).2.connectReply = app.connectReply ∧ SameRules app (e.apply makers app).2)

/-- A run id is confirmed only while a connect reply is held, and a connect reply that does not
parse comes only while none is held. -/
def Meets (e : Event) (app : NrApp R T) : Prop :=
  (e.told makers = .stillValid → app.connectReply ≠ none) ∧
    (e.told makers = .malformed → app.connectReply = none)

/-- Every step of a run has a property, given the event and the application before it. -/
def Along (P : Event → NrApp R T → Prop) : NrApp R T → List Event → Prop
  | _, [] => True
  | app, e :: events => P e app ∧ Along P (e.apply makers app).2 events

/-- The connect reply and the agent run id belong together, in every state. -/
def Paired (app : NrApp R T) : Prop :=
  ∀ obj, app.connectReply = some obj →
    app.agentRunId = some ((obj.getHashString "agent_run_id").getD [])

lemma create_paired (info : AppInfoMax) : Paired (create info : NrApp R T) := by
  intro obj hobj
  cases hobj

lemma create_valid (info : AppInfoMax) : Valid (create info : NrApp R T) := by
  intro hok
  cases hok

lemma Paired.of_same {app app' : NrApp R T} (h : Paired app)
    (hreply : app'.connectReply = app.connectReply) (hrules : SameRules app app') : Paired app' := by
  intro obj hobj
  rw [hrules.agentRunId]
  exact h obj (hreply.symm.trans hobj)

lemma Paired.apply (h : Paired app) (e : Event) : Paired (e.apply makers app).2 := by
  have hdoes := e.apply_does makers app
  cases htold : e.told makers with
  | nothing =>
    rw [htold] at hdoes
    exact h.of_same hdoes.2.2.1 hdoes.2.2.2
  | connected reply now obj =>
    rw [htold] at hdoes
    obtain ⟨-,-,hreply,hrun⟩ := hdoes
    intro obj' hobj
    rw [hreply] at hobj
    cases hobj
    exact hrun
  | malformed =>
    rw [htold] at hdoes
    intro obj hobj
    rw [hdoes.2.2.1] at hobj
    cases hobj
  | unknown | invalid | stillValid =>
    rw [htold] at hdoes
    exact h.of_same hdoes.2.2.1 hdoes.2.2.2

/-- An application that is paired is valid once it holds a connect reply. -/
theorem Paired.valid (h : Paired app) (hreply : app.connectReply ≠ none) : Valid app := by
  intro _
  obtain ⟨obj,hobj⟩ := Option.ne_none_iff_exists'.mp hreply
  exact ⟨obj,hobj,h obj hobj⟩

lemma Valid.of_state {app app' : NrApp R T} (h : Valid app)
    (hstate : app'.state = app.state ∨ app'.state = .unknown)
    (hreply : app'.connectReply = app.connectReply) (hrun : app'.agentRunId = app.agentRunId) :
    Valid app' := by
  intro hok
  rcases hstate with hstate | hstate
  · rw [hreply,hrun]
    exact h (hstate.symm.trans hok)
  · rw [hstate] at hok
    cases hok

lemma valid_of_not_ok (h : app.state ≠ .ok) : Valid app :=
  fun hok => absurd hok h

lemma sound_iff_meets (hpaired : Paired app) (hvalid : Valid app) (e : Event) :
    Sound makers e app ↔ Meets makers e app := by
  have hdoes := e.apply_does makers app
  have hpaired' := hpaired.apply makers e
  unfold Sound Meets
  cases htold : e.told makers with
  | nothing =>
    rw [htold] at hdoes
    obtain ⟨-,hstate,hreply,hrules⟩ := hdoes
    have hvalid' := hvalid.of_state hstate hreply hrules.agentRunId
    simp [hvalid',hreply,hrules]
  | unknown | invalid =>
    rw [htold] at hdoes
    obtain ⟨hstatus,hstate,-⟩ := hdoes
    have hvalid' : Valid (e.apply makers app).2 := valid_of_not_ok (by simp [hstate])
    simp [hvalid',hstatus]
  | connected reply now obj =>
    rw [htold] at hdoes
    obtain ⟨hstatus,-,hreply,-⟩ := hdoes
    have hvalid' := hpaired'.valid (by simp [hreply])
    simp [hvalid',hstatus]
  | malformed =>
    rw [htold] at hdoes
    obtain ⟨hstatus,hstate,hreply,hrules⟩ := hdoes
    constructor
    · rintro ⟨-,hkept⟩
      have hsame := (hkept hstatus).1
      rw [hreply] at hsame
      simp [hsame.symm]
    · intro h
      have hnone := h.2 rfl
      have hsame := hreply.trans hnone.symm
      exact ⟨hvalid.of_state hstate hsame hrules.agentRunId,fun _ => ⟨hsame,hrules⟩⟩
  | stillValid =>
    rw [htold] at hdoes
    obtain ⟨hstatus,hstate,hreply,-⟩ := hdoes
    constructor
    · rintro ⟨hvalid',-⟩
      obtain ⟨obj,hobj,-⟩ := hvalid' hstate
      rw [hreply] at hobj
      simp [hobj]
    · intro h
      have hvalid' := hpaired'.valid (by simpa [hreply] using h.1 rfl)
      simp [hvalid',hstatus]

lemma along_sound_iff (hpaired : Paired app) (hvalid : Valid app) (events : List Event) :
    Along makers (Sound makers) app events ↔ Along makers (Meets makers) app events := by
  induction events generalizing app with
  | nil => exact Iff.rfl
  | cons e events ih =>
    simp only [Along]
    constructor
    · rintro ⟨hsound,hrest⟩
      refine ⟨(sound_iff_meets makers hpaired hvalid e).mp hsound,?_⟩
      exact (ih (hpaired.apply makers e) hsound.1).mp hrest
    · rintro ⟨hmeets,hrest⟩
      have hsound := (sound_iff_meets makers hpaired hvalid e).mpr hmeets
      exact ⟨hsound,(ih (hpaired.apply makers e) hsound.1).mpr hrest⟩

/-- Over every sequence of replies to a new application: each state is valid and each rejected reply
leaves the data, exactly when no run id is confirmed while no connect reply is held and no connect
reply that is held meets one that does not parse. -/
theorem replies_sound_iff (info : AppInfoMax) (events : List Event) :
    Along makers (Sound makers) (create info) events ↔
      Along makers (Meets makers) (create info) events :=
  along_sound_iff makers (create_paired info) (create_valid info) events

end Runs

/-! ### A run that goes wrong -/

/-- A message with a reply of the given status and connect reply. -/
def replyMessage (status : UInt8) (json : Bytes) : Bytes :=
  [16,0,0,0, 10,0,12,0, 0,0,4,0,8,0, 0,0, 12,0,0,0, 2,0,0,0, 20,0,0,0,
    16,0,12,0, 4,0,8,0,0,0,0,0,0,0,0,0, 16,0,0,0, status,0,0,0, 4,0,0,0,
    json.length.toUInt8,0,0,0] ++ json

def replyEvent (status : UInt8) (json : Bytes) : Event :=
  .reply (some (Flat.memoryOf (replyMessage status json))) (replyMessage status json).length 1

/-- A parser that knows one document. -/
def emptyObject : Makers Unit Unit where
  fromJson := fun b => if b = ascii "\x7b\x7d" then some (.hash []) else none
  rules := fun _ => none
  segmentTerms := fun _ => none

/-- After a good connect reply one that is cut short is rejected, but the good one is gone; when the
daemon then confirms the run id, the state is OK without a connect reply. -/
theorem replies_unsound :
    ¬ Along emptyObject (Sound emptyObject) (create ⟨0,0,0⟩)
      [replyEvent 3 (ascii "\x7b\x7d"),replyEvent 3 (ascii "\x7b"),replyEvent 4 []] := by
  intro h
  have hlast := h.2.2.1.1
  have hstate : ((replyEvent 4 []).apply emptyObject ((replyEvent 3 (ascii "\x7b")).apply emptyObject
      ((replyEvent 3 (ascii "\x7b\x7d")).apply emptyObject (create ⟨0,0,0⟩)).2).2).2.state = .ok := by
    decide +kernel
  have hreply : (((replyEvent 4 []).apply emptyObject ((replyEvent 3 (ascii "\x7b")).apply emptyObject
      ((replyEvent 3 (ascii "\x7b\x7d")).apply emptyObject (create ⟨0,0,0⟩)).2).2).2.connectReply).isNone
        = true := by
    decide +kernel
  obtain ⟨obj,hobj,-⟩ := hlast hstate
  rw [hobj] at hreply
  cases hreply

end NrApp
end PhpAgent
