import PhpAgent.Lib.Channel
import PhpAgent.Daemon.EventData

/-! The goroutines between the clock and the processor that trigger the harvests of one app, after
`harvest_trigger.go` and `app_harvest.go`, and how `Close` stops them. -/
namespace PhpAgent.HarvestTrigger

open Rendezvous

/-- `isHarvestAll` of a reply that may be nil. -/
def isHarvestAll : Option ConnectReply → Bool
  | none => true
  | some reply => reply.eventHarvestConfig.isHarvestAll

/-- None where the source would follow a nil reply. -/
def getHarvestTrigger (reply : Option ConnectReply) : Option TriggerFunc :=
  if isHarvestAll reply then some (triggerBuilder .all Limits.defaultReportPeriod)
  else reply.map fun r => r.eventHarvestConfig.customTriggerBuilder

/-! ### The goroutines -/

/-- `ah.trigger`, `ah.cancel`, the cancel channels of a group, the channels of the tickers, and the
processor's channel of harvests. -/
inductive Channel
  | trigger
  | cancel
  | member (i : ℕ)
  | ticks (i : ℕ)
  | processorHarvest
deriving DecidableEq

/-- A trigger function that is one ticker is the goroutine `member 0`. -/
inductive Goroutine
  | starter
  | broadcaster
  | member (i : ℕ)
  | clock (i : ℕ)
  | forwarder
  | closer
  | processor
deriving DecidableEq

/-- What goes over the channels; an `event` stands for a `ProcessorHarvest` of the app. -/
inductive Message
  | tick
  | yes
  | type (t : HarvestType)
  | event (t : HarvestType)
deriving DecidableEq

/-- Inside the function that `triggerBuilder` returns, which cancels on a channel. -/
inductive Ticking
  | absent
  | opening (t : Ticker) (c : Channel)
  | waiting (t : Ticker) (c : Channel)
  | sending (t : Ticker) (c : Channel)
  | confirming (t : Ticker) (c : Channel)
  | done
deriving DecidableEq

/-- Inside the function that `customTriggerBuilder` returns: the members still to start. -/
inductive Starting
  | absent
  | starting (ts : List Ticker) (i : ℕ)
  | done
deriving DecidableEq

/-- Inside its goroutine, at one of `n` members. -/
inductive Broadcasting
  | absent
  | listening (n : ℕ)
  | telling (i n : ℕ)
  | hearing (i n : ℕ)
  | reporting
  | done
deriving DecidableEq

/-- Inside the goroutine of `NewAppHarvest`. -/
inductive Forwarding
  | forwarding
  | handing (t : HarvestType)
  | done
deriving DecidableEq

/-- Inside `Close`. -/
inductive Closing
  | unclosed
  | cancelling
  | awaiting
  | shutting
  | closingTrigger
  | closingCancel
  | done
deriving DecidableEq

abbrev Place : Goroutine → Type
  | .starter => Starting
  | .broadcaster => Broadcasting
  | .member _ => Ticking
  | .clock _ => Unit
  | .forwarder => Forwarding
  | .closer => Closing
  | .processor => Unit

/-- `NewTicker` panics for a duration that is not above 0. -/
def Ticking.offers (i : ℕ) : Ticking → List (Offer Channel Message Place (.member i))
  | .absent => []
  | .opening t c => if 0 < t.duration then [.act (Ticking.waiting t c)] else [.die]
  | .waiting t c =>
    [.recv (.ticks i) fun _ => Ticking.sending t c,.recv c fun _ => Ticking.confirming t c]
  | .sending t c => [.send .trigger (.type t.type) (Ticking.waiting t c)]
  | .confirming _ c => [.send c .yes Ticking.done]
  | .done => []

/-- `startGroupMember` for each member, then the goroutine of the broadcaster. -/
def Starting.offers : Starting → List (Offer Channel Message Place .starter)
  | .absent => []
  | .starting (t :: ts) i =>
    [.start (.member i) (Ticking.opening t (.member i)) (Starting.starting ts (i+1))]
  | .starting [] i => [.start .broadcaster (Broadcasting.listening i) Starting.done]
  | .done => []

/-- The head of the loop over the group. -/
def Broadcasting.loop (i n : ℕ) : Broadcasting := if i < n then .telling i n else .reporting

def Broadcasting.offers : Broadcasting → List (Offer Channel Message Place .broadcaster)
  | .absent => []
  | .listening n => [.recv .cancel fun _ => Broadcasting.loop 0 n]
  | .telling i n => [.send (.member i) .yes (Broadcasting.hearing i n)]
  | .hearing i n => [.recv (.member i) fun _ => Broadcasting.loop (i+1) n]
  | .reporting => [.send .cancel .yes Broadcasting.done]
  | .done => []

/-- `for t := range ah.trigger`: the loop ends when the channel is closed. -/
def Forwarding.receive : Option Message → Forwarding
  | some (.type t) => .handing t
  | _ => .done

def Forwarding.offers : Forwarding → List (Offer Channel Message Place .forwarder)
  | .forwarding => [.recv .trigger Forwarding.receive]
  | .handing t => [.send .processorHarvest (.event t) Forwarding.forwarding]
  | .done => []

/-- The shutdown of the trace observer is one step. -/
def Closing.offers : Closing → List (Offer Channel Message Place .closer)
  | .unclosed => [.act Closing.cancelling]
  | .cancelling => [.send .cancel .yes Closing.awaiting]
  | .awaiting => [.recv .cancel fun _ => Closing.shutting]
  | .shutting => [.act Closing.closingTrigger]
  | .closingTrigger => [.close .trigger Closing.closingCancel]
  | .closingCancel => [.close .cancel Closing.done]
  | .done => []

/-- A clock may tick at any time, and the processor comes back to its channel. -/
def offers : ∀ g, Place g → List (Offer Channel Message Place g)
  | .starter, p => Starting.offers p
  | .broadcaster, p => Broadcasting.offers p
  | .member i, p => Ticking.offers i p
  | .clock i, _ => [.send (.ticks i) .tick ()]
  | .forwarder, p => Forwarding.offers p
  | .closer, p => Closing.offers p
  | .processor, _ => [.recv .processorHarvest fun _ => ()]

abbrev System : Type := State Channel Place

/-- The cancel channel of a member. -/
def TriggerFunc.channel : TriggerFunc → ℕ → Channel
  | .one _, _ => .cancel
  | .group _, i => .member i

/-- What `NewAppHarvest` starts; `Close` is called some time later. -/
def TriggerFunc.initial (f : TriggerFunc) : System where
  place
    | .starter => match f with
      | .one _ => Starting.absent
      | .group ts => Starting.starting ts 0
    | .broadcaster => Broadcasting.absent
    | .member i => match f,i with
      | .one t,0 => Ticking.opening t .cancel
      | _,_ => Ticking.absent
    | .clock _ => ()
    | .forwarder => Forwarding.forwarding
    | .closer => Closing.unclosed
    | .processor => ()
  closed _ := false

/-! ### What each goroutine offers -/

section Offers
variable {i j n : ℕ} {c : Channel} {m : Message} {p q : Ticking} {g : Goroutine}

lemma Ticking.mem_send : Offer.send c m p ∈ Ticking.offers i q ↔
    (∃ t d, q = .sending t d ∧ c = .trigger ∧ m = .type t.type ∧ p = .waiting t d) ∨
      ∃ t, q = .confirming t c ∧ m = .yes ∧ p = .done := by
  cases q with
  | opening t d => by_cases ht : 0 < t.duration <;> simp [Ticking.offers,ht]
  | absent | waiting | sending | confirming | done => simp [Ticking.offers]; try grind

lemma Ticking.mem_recv {f : Option Message → Ticking} : Offer.recv c f ∈ Ticking.offers i q ↔
    ∃ t d, q = .waiting t d ∧ ((c = .ticks i ∧ f = fun _ => .sending t d) ∨
      (c = d ∧ f = fun _ => .confirming t d)) := by
  cases q with
  | opening t d => by_cases ht : 0 < t.duration <;> simp [Ticking.offers,ht]
  | absent | waiting | sending | confirming | done => simp [Ticking.offers]

lemma Broadcasting.mem_send {p q : Broadcasting} : Offer.send c m p ∈ Broadcasting.offers q ↔
    (∃ i n, q = .telling i n ∧ c = .member i ∧ m = .yes ∧ p = .hearing i n) ∨
      (q = .reporting ∧ c = .cancel ∧ m = .yes ∧ p = .done) := by
  cases q <;> simp [Broadcasting.offers]

lemma Broadcasting.mem_recv {q : Broadcasting} {f : Option Message → Broadcasting} :
    Offer.recv c f ∈ Broadcasting.offers q ↔
      (∃ n, q = .listening n ∧ c = .cancel ∧ f = fun _ => Broadcasting.loop 0 n) ∨
      ∃ i n, q = .hearing i n ∧ c = .member i ∧ f = fun _ => Broadcasting.loop (i+1) n := by
  cases q <;> simp [Broadcasting.offers]

lemma Closing.mem_send {p q : Closing} : Offer.send c m p ∈ Closing.offers q ↔
    q = .cancelling ∧ c = .cancel ∧ m = .yes ∧ p = .awaiting := by
  cases q <;> simp [Closing.offers]

lemma Closing.mem_recv {q : Closing} {f : Option Message → Closing} :
    Offer.recv c f ∈ Closing.offers q ↔ q = .awaiting ∧ c = .cancel ∧ f = fun _ => .shutting := by
  cases q <;> simp [Closing.offers]

lemma Closing.mem_close {p q : Closing} : Offer.close c p ∈ Closing.offers q ↔
    (q = .closingTrigger ∧ c = .trigger ∧ p = .closingCancel) ∨
      (q = .closingCancel ∧ c = .cancel ∧ p = .done) := by
  cases q <;> simp [Closing.offers]

lemma Forwarding.mem_send {p q : Forwarding} : Offer.send c m p ∈ Forwarding.offers q ↔
    ∃ t, q = .handing t ∧ c = .processorHarvest ∧ m = .event t ∧ p = .forwarding := by
  cases q <;> simp [Forwarding.offers]

lemma Forwarding.mem_recv {q : Forwarding} {f : Option Message → Forwarding} :
    Offer.recv c f ∈ Forwarding.offers q ↔
      q = .forwarding ∧ c = .trigger ∧ f = Forwarding.receive := by
  cases q <;> simp [Forwarding.offers]

lemma Ticking.mem_act : Offer.act p ∈ Ticking.offers i q ↔
    ∃ t d, q = .opening t d ∧ 0 < t.duration ∧ p = .waiting t d := by
  cases q with
  | opening t d => by_cases ht : 0 < t.duration <;> simp [Ticking.offers,ht]
  | absent | waiting | sending | confirming | done => simp [Ticking.offers]

lemma Ticking.mem_die : Offer.die ∈ Ticking.offers i q ↔
    ∃ t d, q = .opening t d ∧ t.duration ≤ 0 := by
  cases q with
  | opening t d =>
    by_cases ht : 0 < t.duration
    · simp [Ticking.offers,ht]
    · simp [Ticking.offers,not_lt.mp ht,ht]
  | absent | waiting | sending | confirming | done => simp [Ticking.offers]

lemma Ticking.no_close : Offer.close c p ∉ Ticking.offers i q := by
  cases q with
  | opening t d => by_cases ht : 0 < t.duration <;> simp [Ticking.offers,ht]
  | absent | waiting | sending | confirming | done => simp [Ticking.offers]

lemma Ticking.no_start {r : Place g} : Offer.start g r p ∉ Ticking.offers i q := by
  cases q with
  | opening t d => by_cases ht : 0 < t.duration <;> simp [Ticking.offers,ht]
  | absent | waiting | sending | confirming | done => simp [Ticking.offers]

/-- The broadcaster only sends and receives. -/
theorem Broadcasting.only {q : Broadcasting} {o : Offer Channel Message Place .broadcaster}
    (h : o ∈ Broadcasting.offers q) :
    (∃ c m next, o = .send c m next) ∨ ∃ c next, o = .recv c next := by
  cases q with
  | telling | reporting => exact .inl ⟨_,_,_,List.mem_singleton.mp h⟩
  | listening | hearing => exact .inr ⟨_,_,List.mem_singleton.mp h⟩
  | absent | done => cases h

/-- And so does the forwarder. -/
theorem Forwarding.only {q : Forwarding} {o : Offer Channel Message Place .forwarder}
    (h : o ∈ Forwarding.offers q) :
    (∃ c m next, o = .send c m next) ∨ ∃ c next, o = .recv c next := by
  cases q with
  | handing => exact .inl ⟨_,_,_,List.mem_singleton.mp h⟩
  | forwarding => exact .inr ⟨_,_,List.mem_singleton.mp h⟩
  | done => cases h

lemma Closing.mem_act {p q : Closing} : Offer.act p ∈ Closing.offers q ↔
    (q = .unclosed ∧ p = .cancelling) ∨ (q = .shutting ∧ p = .closingTrigger) := by
  cases q <;> simp [Closing.offers]

lemma Closing.no_start {p q : Closing} {r : Place g} : Offer.start g r p ∉ Closing.offers q := by
  cases q <;> simp [Closing.offers]

lemma Closing.no_die {q : Closing} : Offer.die ∉ Closing.offers q := by
  cases q <;> simp [Closing.offers]

lemma Starting.only_starts {p : Starting} {o : Offer Channel Message Place .starter}
    (h : o ∈ Starting.offers p) : ∃ g q next, o = .start g q next := by
  cases p with
  | starting ts i => cases ts <;> exact ⟨_,_,_,List.mem_singleton.mp h⟩
  | absent | done => cases h

/-- Only the closer closes a channel, only the starter starts a ticker, and only the tickers die. -/
def OnlyFrom (g : Goroutine) : Offer Channel Message Place g → Prop
  | .close _ _ => g = .closer
  | .start _ _ _ => g = .starter
  | .act _ => g = .closer ∨ ∃ i, g = .member i
  | .die => ∃ i, g = .member i
  | .send _ _ _ | .recv _ _ => True

lemma onlyFrom {q : Place g} {o : Offer Channel Message Place g} (h : o ∈ offers g q) : OnlyFrom g o := by
  cases g with
  | starter => obtain ⟨_,_,_,rfl⟩ := Starting.only_starts h; exact rfl
  | broadcaster => obtain ⟨_,_,_,rfl⟩ | ⟨_,_,rfl⟩ := Broadcasting.only h <;> trivial
  | forwarder => obtain ⟨_,_,_,rfl⟩ | ⟨_,_,rfl⟩ := Forwarding.only h <;> trivial
  | closer =>
    cases o with
    | start => exact absurd h Closing.no_start
    | die => exact absurd h Closing.no_die
    | close => rfl
    | act => exact .inl rfl
    | send | recv => trivial
  | member i =>
    cases o with
    | close => exact absurd h Ticking.no_close
    | start => exact absurd h Ticking.no_start
    | act => exact .inr ⟨i,rfl⟩
    | die => exact ⟨i,rfl⟩
    | send | recv => trivial
  | clock | processor => obtain rfl := List.mem_singleton.mp h; trivial

end Offers

/-! ### What the tickers are at -/

/-- A ticker that has not been told to stop. -/
def Active (t : Ticker) (c : Channel) (p : Ticking) : Prop :=
  p = .opening t c ∨ p = .waiting t c ∨ p = .sending t c

/-- The members below `a` have stopped, those below `b` are active, and the others have not started. -/
def Up (f : TriggerFunc) (a b : ℕ) (m : ℕ → Ticking) : Prop :=
  ∀ j, (j < a → m j = .done) ∧
    (a ≤ j → j < b → ∃ t, f.tickers[j]? = some t ∧ Active t (f.channel j) (m j)) ∧
    (a ≤ j → b ≤ j → m j = .absent)

/-- How far `Close` has come. -/
inductive Mode
  | running
  | stopping
  | stopped
deriving DecidableEq

def Closing.mode : Closing → Mode
  | .unclosed | .cancelling => .running
  | .awaiting => .stopping
  | .shutting | .closingTrigger | .closingCancel | .done => .stopped

/-- Where starter, broadcaster and members are together. -/
inductive Stage : TriggerFunc → Mode → Starting → Broadcasting → (ℕ → Ticking) → Prop
  | one {t : Ticker} {m : ℕ → Ticking} (hm : Up (.one t) 0 1 m) :
      Stage (.one t) .running .absent .absent m
  | oneStopping {t : Ticker} {m : ℕ → Ticking} (h0 : m 0 = .confirming t .cancel)
      (hm : Up (.one t) 1 1 (Function.update m 0 .done)) : Stage (.one t) .stopping .absent .absent m
  | oneStopped {t : Ticker} {m : ℕ → Ticking} (hm : Up (.one t) 1 1 m) :
      Stage (.one t) .stopped .absent .absent m
  | starting {ts rest : List Ticker} {k : ℕ} {m : ℕ → Ticking} (hrest : rest = ts.drop k)
      (hk : k ≤ ts.length) (hm : Up (.group ts) 0 k m) :
      Stage (.group ts) .running (.starting rest k) .absent m
  | listening {ts : List Ticker} {m : ℕ → Ticking} (hm : Up (.group ts) 0 ts.length m) :
      Stage (.group ts) .running .done (.listening ts.length) m
  | telling {ts : List Ticker} {k : ℕ} {m : ℕ → Ticking} (hk : k < ts.length)
      (hm : Up (.group ts) k ts.length m) :
      Stage (.group ts) .stopping .done (.telling k ts.length) m
  | hearing {ts : List Ticker} {k : ℕ} {t : Ticker} {m : ℕ → Ticking} (ht : ts[k]? = some t)
      (hc : m k = .confirming t (.member k))
      (hm : Up (.group ts) (k+1) ts.length (Function.update m k .done)) :
      Stage (.group ts) .stopping .done (.hearing k ts.length) m
  | reporting {ts : List Ticker} {m : ℕ → Ticking} (hm : Up (.group ts) ts.length ts.length m) :
      Stage (.group ts) .stopping .done .reporting m
  | stopped {ts : List Ticker} {m : ℕ → Ticking} (hm : Up (.group ts) ts.length ts.length m) :
      Stage (.group ts) .stopped .done .done m

def members (s : System) (i : ℕ) : Ticking := s.place (.member i)

section Members
variable (s : System) (i : ℕ)

@[simp] lemma members_move_member (p : Ticking) :
    members (s.move (.member i) p) = Function.update (members s) i p := by
  funext j
  by_cases h : j = i
  · subst h
    simp [members]
  · simp [members,h]

@[simp] lemma members_move_clock (p : Unit) : members (s.move (.clock i) p) = members s := by
  funext j
  simp [members]

@[simp] lemma members_move_starter (p : Starting) : members (s.move .starter p) = members s := by
  funext j
  simp [members]

@[simp] lemma members_move_broadcaster (p : Broadcasting) :
    members (s.move .broadcaster p) = members s := by
  funext j
  simp [members]

@[simp] lemma members_move_forwarder (p : Forwarding) :
    members (s.move .forwarder p) = members s := by
  funext j
  simp [members]

@[simp] lemma members_move_closer (p : Closing) : members (s.move .closer p) = members s := by
  funext j
  simp [members]

@[simp] lemma members_move_processor (p : Unit) : members (s.move .processor p) = members s := by
  funext j
  simp [members]

@[simp] lemma members_shut (c : Channel) : members (s.shut c) = members s := rfl

end Members

/-- What holds of every state that is reached. -/
structure Inv (f : TriggerFunc) (s : System) : Prop where
  closed_trigger : s.closed .trigger = true ↔
    s.place .closer = Closing.closingCancel ∨ s.place .closer = Closing.done
  closed_cancel : s.closed .cancel = true ↔ s.place .closer = Closing.done
  closed_only : ∀ c, s.closed c = true → c = .trigger ∨ c = .cancel
  forwarder : s.place .forwarder = Forwarding.done → s.closed .trigger = true
  stage : Stage f (s.place .closer).mode (s.place .starter) (s.place .broadcaster) (members s)

/-- The steps of a state that is reached. -/
inductive Move (s : System) : Event Goroutine Channel Message → System → Prop
  | opened {i : ℕ} {t : Ticker} {c : Channel} (hp : members s i = .opening t c) :
      Move s (.acted (.member i)) (s.move (.member i) (Ticking.waiting t c))
  | ticked {i : ℕ} {t : Ticker} {c : Channel} (hp : members s i = .waiting t c) :
      Move s (.met (.clock i) (.member i) (.ticks i) .tick)
        (s.move (.member i) (Ticking.sending t c))
  | offered {i : ℕ} {t : Ticker} {c : Channel} (hp : members s i = .sending t c)
      (hf : s.place .forwarder = Forwarding.forwarding) :
      Move s (.met (.member i) .forwarder .trigger (.type t.type))
        ((s.move (.member i) (Ticking.waiting t c)).move .forwarder (Forwarding.handing t.type))
  | handed {t : HarvestType} (hf : s.place .forwarder = Forwarding.handing t) :
      Move s (.met .forwarder .processor .processorHarvest (.event t))
        (s.move .forwarder Forwarding.forwarding)
  | ended (hf : s.place .forwarder = Forwarding.forwarding) (hc : s.closed .trigger = true) :
      Move s (.drained .forwarder .trigger) (s.move .forwarder Forwarding.done)
  | started {t : Ticker} {ts : List Ticker} {i : ℕ}
      (hp : s.place .starter = Starting.starting (t :: ts) i) :
      Move s (.started .starter (.member i))
        ((s.move (.member i) (Ticking.opening t (.member i))).move .starter
          (Starting.starting ts (i+1)))
  | grouped {i : ℕ} (hp : s.place .starter = Starting.starting [] i) :
      Move s (.started .starter .broadcaster)
        ((s.move .broadcaster (Broadcasting.listening i)).move .starter Starting.done)
  | called (hp : s.place .closer = Closing.unclosed) :
      Move s (.acted .closer) (s.move .closer Closing.cancelling)
  | cancelledOne {i : ℕ} {t : Ticker} (hp : s.place .closer = Closing.cancelling)
      (hm : members s i = .waiting t .cancel) :
      Move s (.met .closer (.member i) .cancel .yes)
        ((s.move .closer Closing.awaiting).move (.member i) (Ticking.confirming t .cancel))
  | cancelled {n : ℕ} (hp : s.place .closer = Closing.cancelling)
      (hb : s.place .broadcaster = Broadcasting.listening n) :
      Move s (.met .closer .broadcaster .cancel .yes)
        ((s.move .closer Closing.awaiting).move .broadcaster (Broadcasting.loop 0 n))
  | told {i n : ℕ} {t : Ticker} (hb : s.place .broadcaster = Broadcasting.telling i n)
      (hm : members s i = .waiting t (.member i)) :
      Move s (.met .broadcaster (.member i) (.member i) .yes)
        ((s.move .broadcaster (Broadcasting.hearing i n)).move (.member i)
          (Ticking.confirming t (.member i)))
  | heard {i n : ℕ} {t : Ticker} (hb : s.place .broadcaster = Broadcasting.hearing i n)
      (hm : members s i = .confirming t (.member i)) :
      Move s (.met (.member i) .broadcaster (.member i) .yes)
        ((s.move (.member i) Ticking.done).move .broadcaster (Broadcasting.loop (i+1) n))
  | confirmedOne {i : ℕ} {t : Ticker} (hp : s.place .closer = Closing.awaiting)
      (hm : members s i = .confirming t .cancel) :
      Move s (.met (.member i) .closer .cancel .yes)
        ((s.move (.member i) Ticking.done).move .closer Closing.shutting)
  | confirmed (hp : s.place .closer = Closing.awaiting)
      (hb : s.place .broadcaster = Broadcasting.reporting) :
      Move s (.met .broadcaster .closer .cancel .yes)
        ((s.move .broadcaster Broadcasting.done).move .closer Closing.shutting)
  | shut (hp : s.place .closer = Closing.shutting) :
      Move s (.acted .closer) (s.move .closer Closing.closingTrigger)
  | closedTrigger (hp : s.place .closer = Closing.closingTrigger) :
      Move s (.closed .closer .trigger) ((s.move .closer Closing.closingCancel).shut .trigger)
  | closedCancel (hp : s.place .closer = Closing.closingCancel) :
      Move s (.closed .closer .cancel) ((s.move .closer Closing.done).shut .cancel)

/-- A ticker is at work on a channel. -/
def At (t : Ticker) (c : Channel) (p : Ticking) : Prop := Active t c p ∨ p = .confirming t c

section Wiring
variable {f : TriggerFunc} {s s' : System} {a b i k : ℕ} {m : ℕ → Ticking} {t : Ticker} {c : Channel}
  {e : Event Goroutine Channel Message} {p : Ticking} {md : Mode} {q : Broadcasting} {sp : Starting}

lemma At.unique {t u : Ticker} {c d : Channel} (h : At t c p) (h' : At u d p) : u = t ∧ d = c := by
  obtain (rfl | rfl | rfl) | rfl := h <;> simpa [At,Active,eq_comm] using h'

lemma Up.wired (h : Up f a b m) (hp : At t c (m i)) : f.tickers[i]? = some t ∧ c = f.channel i := by
  obtain ⟨hdone,hactive,habsent⟩ := h i
  by_cases ha : i < a
  · rw [hdone ha] at hp
    simp [At,Active] at hp
  · by_cases hb : i < b
    · obtain ⟨u,hu,hactive⟩ := hactive (by omega) hb
      obtain ⟨rfl,rfl⟩ := At.unique (.inl hactive) hp
      exact ⟨hu,rfl⟩
    · rw [habsent (by omega) (by omega)] at hp
      simp [At,Active] at hp

lemma Up.wired_update (h : Up f a b (Function.update m k .done)) {u : Ticker}
    (hk : m k = .confirming u (f.channel k)) (hu : f.tickers[k]? = some u) (hp : At t c (m i)) :
    f.tickers[i]? = some t ∧ c = f.channel i := by
  by_cases hik : i = k
  · subst hik
    obtain ⟨rfl,rfl⟩ := At.unique (.inr hk) hp
    exact ⟨hu,rfl⟩
  · exact h.wired (by rwa [Function.update_of_ne hik])

/-- A member uses its own ticker and its own cancel channel. -/
theorem Stage.wired {p : Starting} (h : Stage f md p q m)
    (hp : At t c (m i)) : f.tickers[i]? = some t ∧ c = f.channel i := by
  cases h with
  | one hm | oneStopped hm | starting hrest hk hm | listening hm | telling hk hm | reporting hm
  | stopped hm => exact hm.wired hp
  | oneStopping h0 hm => exact hm.wired_update h0 rfl hp
  | hearing ht hc hm => exact hm.wired_update hc ht hp

/-- The members of a group do not listen to the channel of `Close`. -/
theorem Stage.one_of_cancel {p : Starting} (h : Stage f md p q m)
    (hp : At t .cancel (m i)) : i = 0 ∧ q = .absent := by
  obtain ⟨hi,hc⟩ := h.wired hp
  cases h with
  | one hm | oneStopping h0 hm | oneStopped hm =>
    refine ⟨?_,rfl⟩
    cases i with
    | zero => rfl
    | succ i => simp [TriggerFunc.tickers] at hi
  | starting hrest hk hm | listening hm | telling hk hm | hearing ht hk hm | reporting hm
  | stopped hm => simp [TriggerFunc.channel] at hc

lemma Up.index (h : Up f a b m) (hp : At t c (m i)) : a ≤ i ∧ i < b := by
  obtain ⟨hdone,-,habsent⟩ := h i
  by_contra hout
  by_cases ha : i < a
  · rw [hdone ha] at hp
    simp [At,Active] at hp
  · rw [habsent (by omega) (by omega)] at hp
    simp [At,Active] at hp

/-- An active member stays one. -/
theorem Up.set (h : Up f a b m) (hp : Active t c (m i)) (hnew : Active t c p) :
    Up f a b (Function.update m i p) := by
  obtain ⟨hai,hib⟩ := h.index (.inl hp)
  obtain ⟨hi,hc⟩ := h.wired (.inl hp)
  intro j
  by_cases hj : j = i
  · subst hj
    simp only [Function.update_self]
    exact ⟨fun hlt => by omega,fun _ _ => ⟨t,hi,hc ▸ hnew⟩,fun _ hle => by omega⟩
  · rw [Function.update_of_ne hj]
    exact h j

/-- The next member starts. -/
theorem Up.start (h : Up f a b m) (hab : a ≤ b) (hb : f.tickers[b]? = some t) :
    Up f a (b+1) (Function.update m b (.opening t (f.channel b))) := by
  intro j
  by_cases hj : j = b
  · subst hj
    simp only [Function.update_self]
    exact ⟨fun hlt => by omega,fun _ _ => ⟨t,hb,.inl rfl⟩,fun _ hle => by omega⟩
  · rw [Function.update_of_ne hj]
    obtain ⟨hdone,hactive,habsent⟩ := h j
    exact ⟨hdone,fun h1 h2 => hactive h1 (by omega),fun h1 h2 => habsent h1 (by omega)⟩

/-- The first active member stops. -/
theorem Up.leave (h : Up f a b m) (hab : a < b) : Up f (a+1) b (Function.update m a .done) := by
  intro j
  by_cases hj : j = a
  · subst hj
    simp only [Function.update_self]
    exact ⟨fun _ => trivial,fun hlt => by omega,fun _ hle => by omega⟩
  · rw [Function.update_of_ne hj]
    obtain ⟨hdone,hactive,habsent⟩ := h j
    exact ⟨fun h1 => hdone (by omega),fun h1 => hactive (by omega),fun h1 => habsent (by omega)⟩

lemma Up.set_of_ne (h : Up f a b (Function.update m k .done)) (hik : i ≠ k) (hp : Active t c (m i))
    (hnew : Active t c p) :
    Up f a b (Function.update (Function.update m i p) k .done) := by
  rw [Function.update_comm hik]
  exact h.set (by rwa [Function.update_of_ne hik]) hnew

lemma Active.ne_confirming (h : Active t c p) {u : Ticker} {d : Channel} : p ≠ .confirming u d := by
  obtain rfl | rfl | rfl := h <;> simp

/-- The steps of a ticker that has not been told to stop change no stage. -/
theorem Stage.set (h : Stage f md sp q m) (hp : Active t c (m i)) (hnew : Active t c p) :
    Stage f md sp q (Function.update m i p) := by
  have hrest : ∀ {k : ℕ} {u : Ticker} {d : Channel}, m k = .confirming u d → i ≠ k := by
    rintro k u d hk rfl
    exact hp.ne_confirming hk
  cases h with
  | one hm => exact .one (hm.set hp hnew)
  | oneStopping h0 hm =>
    exact .oneStopping (by rwa [Function.update_of_ne (hrest h0).symm]) (hm.set_of_ne (hrest h0) hp hnew)
  | oneStopped hm => exact .oneStopped (hm.set hp hnew)
  | starting hr hk hm => exact .starting hr hk (hm.set hp hnew)
  | listening hm => exact .listening (hm.set hp hnew)
  | telling hk hm => exact .telling hk (hm.set hp hnew)
  | hearing ht hk hm =>
    exact .hearing ht (by rwa [Function.update_of_ne (hrest hk).symm]) (hm.set_of_ne (hrest hk) hp hnew)
  | reporting hm => exact .reporting (hm.set hp hnew)
  | stopped hm => exact .stopped (hm.set hp hnew)

/-- Once `Close` has its confirmation, nothing is left of starter, broadcaster and members. -/
theorem Stage.quiet (h : Stage f .stopped sp q m) :
    (sp = .absent ∨ sp = .done) ∧ (q = .absent ∨ q = .done) ∧ ∀ i, m i = .absent ∨ m i = .done := by
  have hquiet : ∀ {n : ℕ}, Up f n n m → ∀ i, m i = .absent ∨ m i = .done := by
    intro n hm i
    obtain ⟨hdone,-,habsent⟩ := hm i
    by_cases hi : i < n
    · exact .inr (hdone hi)
    · exact .inl (habsent (by omega) (by omega))
  cases h with
  | oneStopped hm => exact ⟨.inl rfl,.inl rfl,hquiet hm⟩
  | stopped hm => exact ⟨.inr rfl,.inr rfl,hquiet hm⟩

@[simp] lemma move_unit_clock : s.move (.clock i) () = s := by
  cases s
  simp [State.move]

@[simp] lemma move_unit_processor : s.move .processor () = s := by
  cases s
  simp [State.move]

lemma Inv.wired (h : Inv f s) (hp : At t c (members s i)) : f.tickers[i]? = some t ∧ c = f.channel i :=
  h.stage.wired hp

/-- A member does not listen to the channels of the others, to the harvests or to the trigger. -/
theorem Inv.cancels_on (h : Inv f s) (hp : At t c (members s i)) : c = .cancel ∨ c = .member i := by
  obtain ⟨-,rfl⟩ := h.wired hp
  cases f with
  | one u => exact .inl rfl
  | group us => exact .inr rfl

lemma Inv.one_of_cancel (h : Inv f s) (hp : At t .cancel (members s i)) :
    i = 0 ∧ s.place .broadcaster = Broadcasting.absent := h.stage.one_of_cancel hp

lemma at_waiting (h : members s i = .waiting t c) : At t c (members s i) := .inl (.inr (.inl h))

lemma at_confirming (h : members s i = .confirming t c) : At t c (members s i) := .inr h

/-- Who sends, by channel. -/
inductive Sends (s : System) : (g : Goroutine) → Channel → Message → Place g → Prop
  | tick {i : ℕ} : Sends s (.clock i) (.ticks i) .tick ()
  | offer {i : ℕ} {t : Ticker} {c : Channel} (hp : members s i = .sending t c) :
      Sends s (.member i) .trigger (.type t.type) (Ticking.waiting t c)
  | confirmOne {i : ℕ} {t : Ticker} (hp : members s i = .confirming t .cancel) :
      Sends s (.member i) .cancel .yes Ticking.done
  | confirm {i : ℕ} {t : Ticker} (hp : members s i = .confirming t (.member i)) :
      Sends s (.member i) (.member i) .yes Ticking.done
  | tell {i n : ℕ} (hp : s.place .broadcaster = Broadcasting.telling i n) :
      Sends s .broadcaster (.member i) .yes (Broadcasting.hearing i n)
  | report (hp : s.place .broadcaster = Broadcasting.reporting) :
      Sends s .broadcaster .cancel .yes Broadcasting.done
  | hand {t : HarvestType} (hp : s.place .forwarder = Forwarding.handing t) :
      Sends s .forwarder .processorHarvest (.event t) Forwarding.forwarding
  | cancel (hp : s.place .closer = Closing.cancelling) :
      Sends s .closer .cancel .yes Closing.awaiting

/-- Who receives, by channel. -/
inductive Receives (s : System) : (r : Goroutine) → Channel → (Option Message → Place r) → Prop
  | tick {i : ℕ} {t : Ticker} {c : Channel} (hp : members s i = .waiting t c) :
      Receives s (.member i) (.ticks i) fun _ => Ticking.sending t c
  | cancelOne {i : ℕ} {t : Ticker} (hp : members s i = .waiting t .cancel) :
      Receives s (.member i) .cancel fun _ => Ticking.confirming t .cancel
  | cancel {i : ℕ} {t : Ticker} (hp : members s i = .waiting t (.member i)) :
      Receives s (.member i) (.member i) fun _ => Ticking.confirming t (.member i)
  | listen {n : ℕ} (hp : s.place .broadcaster = Broadcasting.listening n) :
      Receives s .broadcaster .cancel fun _ => Broadcasting.loop 0 n
  | hear {i n : ℕ} (hp : s.place .broadcaster = Broadcasting.hearing i n) :
      Receives s .broadcaster (.member i) fun _ => Broadcasting.loop (i+1) n
  | forward (hp : s.place .forwarder = Forwarding.forwarding) :
      Receives s .forwarder .trigger Forwarding.receive
  | close (hp : s.place .closer = Closing.awaiting) :
      Receives s .closer .cancel fun _ => Closing.shutting
  | process : Receives s .processor .processorHarvest fun _ => ()

lemma Inv.sends (h : Inv f s) {g : Goroutine} {m : Message} {p : Place g}
    (hs : Offer.send c m p ∈ offers g (s.place g)) : Sends s g c m p := by
  cases g with
  | starter => obtain ⟨_,_,_,ho⟩ := Starting.only_starts hs; cases ho
  | processor => simp [offers] at hs
  | clock i =>
    obtain ⟨rfl,rfl,-⟩ : c = .ticks i ∧ m = .tick ∧ p = () := by simpa [offers] using hs
    exact .tick
  | member i =>
    obtain ⟨t,d,hq,rfl,rfl,rfl⟩ | ⟨t,hq,rfl,rfl⟩ := Ticking.mem_send.mp hs
    · exact .offer hq
    · obtain rfl | rfl := h.cancels_on (at_confirming hq)
      · exact .confirmOne hq
      · exact .confirm hq
  | broadcaster =>
    obtain ⟨i,n,hq,rfl,rfl,rfl⟩ | ⟨hq,rfl,rfl,rfl⟩ := Broadcasting.mem_send.mp hs
    · exact .tell hq
    · exact .report hq
  | forwarder =>
    obtain ⟨t,hq,rfl,rfl,rfl⟩ := Forwarding.mem_send.mp hs
    exact .hand hq
  | closer =>
    obtain ⟨hq,rfl,rfl,rfl⟩ := Closing.mem_send.mp hs
    exact .cancel hq

lemma Inv.receives (h : Inv f s) {r : Goroutine} {q : Option Message → Place r}
    (hr : Offer.recv c q ∈ offers r (s.place r)) : Receives s r c q := by
  cases r with
  | starter => obtain ⟨_,_,_,ho⟩ := Starting.only_starts hr; cases ho
  | clock i => simp [offers] at hr
  | processor =>
    obtain ⟨rfl,rfl⟩ : c = .processorHarvest ∧ q = fun _ => () := by simpa [offers] using hr
    exact .process
  | member i =>
    obtain ⟨t,d,hq,⟨rfl,rfl⟩ | ⟨rfl,rfl⟩⟩ := Ticking.mem_recv.mp hr
    · exact .tick hq
    · obtain rfl | rfl := h.cancels_on (at_waiting hq)
      · exact .cancelOne hq
      · exact .cancel hq
  | broadcaster =>
    obtain ⟨n,hq,rfl,rfl⟩ | ⟨i,n,hq,rfl,rfl⟩ := Broadcasting.mem_recv.mp hr
    · exact .listen hq
    · exact .hear hq
  | forwarder =>
    obtain ⟨hq,rfl,rfl⟩ := Forwarding.mem_recv.mp hr
    exact .forward hq
  | closer =>
    obtain ⟨hq,rfl,rfl⟩ := Closing.mem_recv.mp hr
    exact .close hq

/-- A send finds its receiver. -/
theorem Inv.meet (h : Inv f s) {g r : Goroutine} {m : Message} {p : Place g}
    {q : Option Message → Place r} (hne : g ≠ r) (hs : Sends s g c m p) (hr : Receives s r c q) :
    Move s (.met g r c m) ((s.move g p).move r (q (some m))) := by
  cases hs with
  | tick =>
    cases hr with
    | tick hq => rw [move_unit_clock]; exact .ticked hq
  | offer hp =>
    cases hr with
    | forward hq => exact .offered hp hq
  | hand hp =>
    cases hr with
    | process => rw [move_unit_processor]; exact .handed hp
  | confirmOne hp =>
    obtain ⟨hi,hb⟩ := h.one_of_cancel (at_confirming hp)
    cases hr with
    | cancelOne hq => exact absurd (by rw [hi,(h.one_of_cancel (at_waiting hq)).1]) hne
    | listen hq => exact absurd (hb.symm.trans hq) (by simp)
    | close hq => exact .confirmedOne hq hp
  | confirm hp =>
    cases hr with
    | cancel hq => exact absurd rfl hne
    | hear hq => exact .heard hq hp
  | tell hp =>
    cases hr with
    | cancel hq => exact .told hp hq
    | hear hq => exact absurd rfl hne
  | report hp =>
    cases hr with
    | cancelOne hq => exact absurd ((h.one_of_cancel (at_waiting hq)).2.symm.trans hp) (by simp)
    | listen hq => exact absurd rfl hne
    | close hq => exact .confirmed hq hp
  | cancel hp =>
    cases hr with
    | cancelOne hq => exact .cancelledOne hp hq
    | listen hq => exact .cancelled hp hq
    | close hq => exact absurd rfl hne

lemma Inv.stopped_of_trigger (h : Inv f s) (hc : s.closed .trigger = true) :
    Stage f .stopped (s.place .starter) (s.place .broadcaster) (members s) := by
  have hstage := h.stage
  obtain hp | hp := h.closed_trigger.mp hc <;> rwa [hp] at hstage

lemma Inv.trigger_of_cancel (h : Inv f s) (hc : s.closed .cancel = true) :
    s.closed .trigger = true := h.closed_trigger.mpr (.inr (h.closed_cancel.mp hc))

lemma not_at_of_quiet (h : p = .absent ∨ p = .done) : ¬ At t c p := by
  obtain rfl | rfl := h <;> simp [At,Active]

/-- Nothing is received from a closed channel but the end of the triggers. -/
theorem Inv.drain (h : Inv f s) {r : Goroutine} {q : Option Message → Place r}
    (hclosed : s.closed c = true) (hr : Receives s r c q) : Move s (.drained r c) (s.move r (q none)) := by
  cases hr with
  | forward hp => exact .ended hp hclosed
  | tick hp | hear hp | cancel hp | process => obtain hc | hc := h.closed_only _ hclosed <;> cases hc
  | cancelOne hp =>
    have hquiet := (h.stopped_of_trigger (h.trigger_of_cancel hclosed)).quiet
    exact absurd (at_waiting hp) (not_at_of_quiet (hquiet.2.2 _))
  | listen hp =>
    have hquiet := (h.stopped_of_trigger (h.trigger_of_cancel hclosed)).quiet
    rw [hp] at hquiet
    simp at hquiet
  | close hp => exact absurd (hp.symm.trans (h.closed_cancel.mp hclosed)) (by simp)

lemma Inv.move (h : Inv f s) (hstep : Step offers s e s') : Move s e s' := by
  cases hstep with
  | meet hne hopen hs hr => exact h.meet hne (h.sends hs) (h.receives hr)
  | drain hclosed hr => exact h.drain hclosed (h.receives hr)
  | @close g c p hopen hc =>
    obtain rfl : g = .closer := onlyFrom hc
    obtain ⟨hp,rfl,rfl⟩ | ⟨hp,rfl,rfl⟩ := Closing.mem_close.mp hc
    · exact .closedTrigger hp
    · exact .closedCancel hp
  | @start g r q p hg =>
    obtain rfl : g = .starter := onlyFrom hg
    revert hg
    cases hp : s.place .starter with
    | absent | done => exact fun hg => by cases hg
    | starting ts i =>
      intro hg
      cases ts with
      | nil => cases List.mem_singleton.mp hg; exact .grouped hp
      | cons t ts => cases List.mem_singleton.mp hg; exact .started hp
  | @act g p ha =>
    obtain rfl | ⟨i,rfl⟩ : g = .closer ∨ ∃ i, g = .member i := onlyFrom ha
    · obtain ⟨hp,rfl⟩ | ⟨hp,rfl⟩ := Closing.mem_act.mp ha
      · exact .called hp
      · exact .shut hp
    · obtain ⟨t,d,hp,-,rfl⟩ := Ticking.mem_act.mp ha
      exact .opened hp

/-- The tickers of a harvest have durations above 0, so that none of them panics. -/
theorem Inv.safe (h : Inv f s) (hpos : ∀ t ∈ f.tickers, 0 < t.duration) : ¬ Panics offers s := by
  intro hpanic
  cases hpanic with
  | @send g c m p hclosed hs =>
    cases h.sends hs with
    | tick | confirm hp | tell hp | hand hp => obtain hc | hc := h.closed_only _ hclosed <;> cases hc
    | offer hp =>
      have hquiet := (h.stopped_of_trigger hclosed).quiet
      exact not_at_of_quiet (hquiet.2.2 _) (.inl (.inr (.inr hp)))
    | confirmOne hp =>
      have hquiet := (h.stopped_of_trigger (h.trigger_of_cancel hclosed)).quiet
      exact not_at_of_quiet (hquiet.2.2 _) (at_confirming hp)
    | report hp =>
      have hquiet := (h.stopped_of_trigger (h.trigger_of_cancel hclosed)).quiet
      rw [hp] at hquiet
      simp at hquiet
    | cancel hp => exact absurd (hp.symm.trans (h.closed_cancel.mp hclosed)) (by simp)
  | @close g c p hclosed hc =>
    obtain rfl : g = .closer := onlyFrom hc
    obtain ⟨hp,rfl,-⟩ | ⟨hp,rfl,-⟩ := Closing.mem_close.mp hc
    · obtain hq | hq := h.closed_trigger.mp hclosed <;> exact absurd (hp.symm.trans hq) (by simp)
    · exact absurd (hp.symm.trans (h.closed_cancel.mp hclosed)) (by simp)
  | @die g hd =>
    obtain ⟨i,rfl⟩ : ∃ i, g = .member i := onlyFrom hd
    obtain ⟨t,d,hp,hle⟩ := Ticking.mem_die.mp hd
    have hi := (h.wired (i := i) (.inl (.inl hp))).1
    exact absurd (hpos t (List.mem_of_getElem? hi)) (not_lt.mpr hle)

/-- A step of one member that changes no stage. -/
theorem Inv.set (h : Inv f s) (hp : Active t c (members s i)) (hnew : Active t c p) :
    Inv f (s.move (.member i) p) where
  closed_trigger := by simpa using h.closed_trigger
  closed_cancel := by simpa using h.closed_cancel
  closed_only := by simpa using h.closed_only
  forwarder := by simpa using h.forwarder
  stage := by simpa using h.stage.set hp hnew

/-- The forwarder stops only when the triggers are over. -/
theorem Inv.forward (h : Inv f s) {p : Forwarding} (hp : p = .done → s.closed .trigger = true) :
    Inv f (s.move .forwarder p) where
  closed_trigger := by simpa using h.closed_trigger
  closed_cancel := by simpa using h.closed_cancel
  closed_only := by simpa using h.closed_only
  forwarder := by simpa using hp
  stage := by simpa using h.stage

lemma Stage.cancelledOne (h : Stage f .running sp q m) (hm : m i = .waiting t .cancel) :
    Stage f .stopping sp q (Function.update m i (.confirming t .cancel)) := by
  obtain ⟨rfl,rfl⟩ := h.one_of_cancel (.inl (.inr (.inl hm)))
  obtain ⟨hi,-⟩ := h.wired (.inl (.inr (.inl hm)))
  cases h with
  | one hup =>
    obtain rfl : _ = t := by simpa [TriggerFunc.tickers] using hi
    exact .oneStopping (by simp) (by rw [Function.update_idem]; exact hup.leave (by omega))
  | starting hrest hk hup =>
    have hc := (hup.wired (.inl (.inr (.inl hm)))).2
    simp [TriggerFunc.channel] at hc

lemma Stage.loop {ts : List Ticker} (hk : k ≤ ts.length) (hm : Up (.group ts) k ts.length m) :
    Stage (.group ts) .stopping .done (Broadcasting.loop k ts.length) m := by
  unfold Broadcasting.loop
  split
  · exact .telling ‹_› hm
  · obtain rfl : k = ts.length := by omega
    exact .reporting hm

lemma Stage.cancelled {n : ℕ} (h : Stage f .running sp (.listening n) m) :
    Stage f .stopping sp (Broadcasting.loop 0 n) m := by
  cases h with
  | listening hm => exact Stage.loop (Nat.zero_le _) hm

lemma Stage.told {n : ℕ} (h : Stage f md sp (.telling i n) m) (hm : m i = .waiting t (.member i)) :
    Stage f md sp (.hearing i n) (Function.update m i (.confirming t (.member i))) := by
  obtain ⟨hi,-⟩ := h.wired (.inl (.inr (.inl hm)))
  cases h with
  | telling hk hup =>
    exact .hearing hi (by simp) (by rw [Function.update_idem]; exact hup.leave hk)

lemma Stage.heard {n : ℕ} (h : Stage f md sp (.hearing i n) m) :
    Stage f md sp (Broadcasting.loop (i+1) n) (Function.update m i .done) := by
  cases h with
  | hearing ht hc hup =>
    have hlt := (List.getElem?_eq_some_iff.mp ht).1
    exact Stage.loop hlt hup

lemma Stage.confirmedOne (h : Stage f .stopping sp q m)
    (hm : m i = .confirming t .cancel) : Stage f .stopped sp q (Function.update m i .done) := by
  obtain ⟨rfl,rfl⟩ := h.one_of_cancel (.inr hm)
  cases h with
  | oneStopping h0 hup => exact .oneStopped hup

lemma Stage.confirmed (h : Stage f .stopping sp .reporting m) : Stage f .stopped sp .done m := by
  cases h with
  | reporting hm => exact .stopped hm

lemma Stage.started {ts : List Ticker} (h : Stage f md (.starting (t :: ts) i) q m) :
    Stage f md (.starting ts (i+1)) q (Function.update m i (.opening t (.member i))) := by
  cases h with
  | @starting us rest k m hrest hk hm =>
    have hlt : i < us.length := by
      by_contra hge
      rw [List.drop_eq_nil_iff.mpr (by omega)] at hrest
      cases hrest
    rw [List.drop_eq_getElem_cons hlt,List.cons.injEq] at hrest
    obtain ⟨rfl,rfl⟩ := hrest
    exact .starting rfl hlt (hm.start (Nat.zero_le _) (List.getElem?_eq_getElem hlt))

lemma Stage.grouped (h : Stage f md (.starting [] i) q m) : Stage f md .done (.listening i) m := by
  cases h with
  | @starting ts rest k m hrest hk hm =>
    obtain rfl : i = ts.length := le_antisymm hk (List.drop_eq_nil_iff.mp hrest.symm)
    exact .listening hm

/-- Every step keeps the invariant. -/
theorem Inv.step (h : Inv f s) (hstep : Step offers s e s') : Inv f s' := by
  have hstage := h.stage
  have htrigger := h.closed_trigger
  have hcancel := h.closed_cancel
  cases h.move hstep with
  | opened hp => exact h.set (.inl hp) (.inr (.inl rfl))
  | ticked hp => exact h.set (.inr (.inl hp)) (.inr (.inr rfl))
  | offered hp hf => exact (h.set (.inr (.inr hp)) (.inr (.inl rfl))).forward (by simp)
  | handed hf => exact h.forward (by simp)
  | ended hf hc => exact h.forward fun _ => hc
  | started hp =>
    rw [hp] at hstage
    exact ⟨by simpa using htrigger,by simpa using hcancel,by simpa using h.closed_only,
      by simpa using h.forwarder,by simpa using hstage.started⟩
  | grouped hp =>
    rw [hp] at hstage
    exact ⟨by simpa using htrigger,by simpa using hcancel,by simpa using h.closed_only,
      by simpa using h.forwarder,by simpa using hstage.grouped⟩
  | called hp =>
    rw [hp] at hstage htrigger hcancel
    exact ⟨by simpa using htrigger,by simpa using hcancel,by simpa using h.closed_only,
      by simpa using h.forwarder,by simpa [Closing.mode] using hstage⟩
  | cancelledOne hp hm =>
    rw [hp] at hstage htrigger hcancel
    exact ⟨by simpa using htrigger,by simpa using hcancel,by simpa using h.closed_only,
      by simpa using h.forwarder,by simpa [Closing.mode] using hstage.cancelledOne hm⟩
  | cancelled hp hb =>
    rw [hp,hb] at hstage
    rw [hp] at htrigger hcancel
    exact ⟨by simpa using htrigger,by simpa using hcancel,by simpa using h.closed_only,
      by simpa using h.forwarder,by simpa [Closing.mode] using hstage.cancelled⟩
  | told hb hm =>
    rw [hb] at hstage
    exact ⟨by simpa using htrigger,by simpa using hcancel,by simpa using h.closed_only,
      by simpa using h.forwarder,by simpa using hstage.told hm⟩
  | heard hb hm =>
    rw [hb] at hstage
    exact ⟨by simpa using htrigger,by simpa using hcancel,by simpa using h.closed_only,
      by simpa using h.forwarder,by simpa using hstage.heard⟩
  | confirmedOne hp hm =>
    rw [hp] at hstage htrigger hcancel
    exact ⟨by simpa using htrigger,by simpa using hcancel,by simpa using h.closed_only,
      by simpa using h.forwarder,by simpa [Closing.mode] using hstage.confirmedOne hm⟩
  | confirmed hp hb =>
    rw [hp,hb] at hstage
    rw [hp] at htrigger hcancel
    exact ⟨by simpa using htrigger,by simpa using hcancel,by simpa using h.closed_only,
      by simpa using h.forwarder,by simpa [Closing.mode] using hstage.confirmed⟩
  | shut hp =>
    rw [hp] at hstage htrigger hcancel
    exact ⟨by simpa using htrigger,by simpa using hcancel,by simpa using h.closed_only,
      by simpa using h.forwarder,by simpa [Closing.mode] using hstage⟩
  | closedTrigger hp =>
    rw [hp] at hstage hcancel
    refine ⟨by simp,by simpa using hcancel,fun c hc => ?_,by simp,by simpa [Closing.mode] using hstage⟩
    by_cases hct : c = .trigger
    · exact .inl hct
    · exact h.closed_only c (by simpa [hct] using hc)
  | closedCancel hp =>
    rw [hp] at hstage htrigger
    refine ⟨by simpa using htrigger,by simp,fun c hc => ?_,by simpa using h.forwarder,
      by simpa [Closing.mode] using hstage⟩
    by_cases hct : c = .cancel
    · exact .inr hct
    · exact h.closed_only c (by simpa [hct] using hc)

lemma Inv.initial (f : TriggerFunc) : Inv f f.initial where
  closed_trigger := by simp [TriggerFunc.initial]
  closed_cancel := by simp [TriggerFunc.initial]
  closed_only := by simp [TriggerFunc.initial]
  forwarder := by simp [TriggerFunc.initial]
  stage := by
    cases f with
    | one t =>
      refine .one fun j => ?_
      cases j with
      | zero => exact ⟨by omega,fun _ _ => ⟨t,rfl,.inl rfl⟩,by omega⟩
      | succ j => exact ⟨by omega,by omega,fun _ _ => rfl⟩
    | group ts => exact .starting rfl (Nat.zero_le _) fun j => ⟨by omega,by omega,fun _ _ => rfl⟩

lemma Inv.run {es : List (Event Goroutine Channel Message)} (h : Run offers f.initial es s) : Inv f s :=
  h.keeps (fun _ _ _ hi hstep => hi.step hstep) (Inv.initial f)

end Wiring

end PhpAgent.HarvestTrigger
