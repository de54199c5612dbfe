import PhpAgent.Daemon.HarvestTrigger

/-! The runs of the goroutines that trigger the harvests of an app: `Close` comes to its end, and each tick
is one harvest. -/
namespace PhpAgent.HarvestTrigger

open Rendezvous

/-! ### Measures of a state -/

structure Measure where
  starter : Starting → ℕ
  broadcaster : Broadcasting → ℕ
  member : Ticking → ℕ
  forwarder : Forwarding → ℕ
  closer : Closing → ℕ

/-- Of the first `n` members. -/
def Measure.total (w : Measure) (n : ℕ) (s : System) : ℕ :=
  w.starter (s.place .starter) + w.broadcaster (s.place .broadcaster) +
    w.forwarder (s.place .forwarder) + w.closer (s.place .closer) +
    ∑ i ∈ Finset.range n, w.member (members s i)

section Totals
variable (w : Measure) {n : ℕ} {s : System}

lemma Measure.total_starter {p : Starting} (hp : s.place .starter = p) (p' : Starting) :
    w.total n (s.move .starter p') + w.starter p = w.total n s + w.starter p' := by
  simp [Measure.total,hp]
  omega

lemma Measure.total_broadcaster {p : Broadcasting} (hp : s.place .broadcaster = p) (p' : Broadcasting) :
    w.total n (s.move .broadcaster p') + w.broadcaster p = w.total n s + w.broadcaster p' := by
  simp [Measure.total,hp]
  omega

lemma Measure.total_forwarder {p : Forwarding} (hp : s.place .forwarder = p) (p' : Forwarding) :
    w.total n (s.move .forwarder p') + w.forwarder p = w.total n s + w.forwarder p' := by
  simp [Measure.total,hp]
  omega

lemma Measure.total_closer {p : Closing} (hp : s.place .closer = p) (p' : Closing) :
    w.total n (s.move .closer p') + w.closer p = w.total n s + w.closer p' := by
  simp [Measure.total,hp]
  omega

lemma Measure.total_member {i : ℕ} (hi : i < n) {p : Ticking} (hp : members s i = p) (p' : Ticking) :
    w.total n (s.move (.member i) p') + w.member p = w.total n s + w.member p' := by
  have hmem : i ∈ Finset.range n := Finset.mem_range.mpr hi
  have hout : ∀ j ∈ (Finset.range n).erase i,
      w.member (Function.update (members s) i p' j) = w.member (members s j) :=
    fun j hj => by rw [Function.update_of_ne (Finset.ne_of_mem_erase hj)]
  have hold := Finset.add_sum_erase _ (fun j => w.member (members s j)) hmem
  have hnew := Finset.add_sum_erase _ (fun j => w.member (Function.update (members s) i p' j)) hmem
  rw [Finset.sum_congr rfl hout,Function.update_self] at hnew
  rw [hp] at hold
  simp [Measure.total]
  omega

@[simp] lemma Measure.total_shut (c : Channel) : w.total n (s.shut c) = w.total n s := rfl

end Totals

/-! How many steps each goroutine is from its end when no clock ticks. -/

def Starting.work : Starting → ℕ
  | .absent | .done => 0
  | .starting ts i => 6*ts.length + 2*i + 4

def Broadcasting.work : Broadcasting → ℕ
  | .absent | .done => 0
  | .listening n => 2*n + 3
  | .telling i n => 2*(n-i) + 2
  | .hearing i n => 2*(n-i) + 1
  | .reporting => 1

def Ticking.work : Ticking → ℕ
  | .absent | .done => 0
  | .opening _ _ => 3
  | .waiting _ _ => 2
  | .sending _ _ => 4
  | .confirming _ _ => 1

def Forwarding.work : Forwarding → ℕ
  | .forwarding => 1
  | .handing _ => 2
  | .done => 0

def Closing.work : Closing → ℕ
  | .unclosed => 6
  | .cancelling => 5
  | .awaiting => 4
  | .shutting => 3
  | .closingTrigger => 2
  | .closingCancel => 1
  | .done => 0

def work : Measure :=
  ⟨Starting.work,Broadcasting.work,Ticking.work,Forwarding.work,Closing.work⟩

@[simp] lemma work_starter (p : Starting) : work.starter p = p.work := rfl
@[simp] lemma work_broadcaster (p : Broadcasting) : work.broadcaster p = p.work := rfl
@[simp] lemma work_member (p : Ticking) : work.member p = p.work := rfl
@[simp] lemma work_forwarder (p : Forwarding) : work.forwarder p = p.work := rfl
@[simp] lemma work_closer (p : Closing) : work.closer p = p.work := rfl

/-! A harvest that a goroutine has in its hands. -/

def Ticking.carried (t : HarvestType) : Ticking → ℕ
  | .sending u _ => if u.type = t then 1 else 0
  | _ => 0

def Forwarding.carried (t : HarvestType) : Forwarding → ℕ
  | .handing u => if u = t then 1 else 0
  | _ => 0

def carried (t : HarvestType) : Measure :=
  ⟨fun _ => 0,fun _ => 0,Ticking.carried t,Forwarding.carried t,fun _ => 0⟩

@[simp] lemma carried_starter (t : HarvestType) (p : Starting) : (carried t).starter p = 0 := rfl
@[simp] lemma carried_broadcaster (t : HarvestType) (p : Broadcasting) :
    (carried t).broadcaster p = 0 := rfl
@[simp] lemma carried_member (t : HarvestType) (p : Ticking) :
    (carried t).member p = p.carried t := rfl
@[simp] lemma carried_forwarder (t : HarvestType) (p : Forwarding) :
    (carried t).forwarder p = p.carried t := rfl
@[simp] lemma carried_closer (t : HarvestType) (p : Closing) : (carried t).closer p = 0 := rfl

def isTick : Event Goroutine Channel Message → Bool
  | .met (.clock _) _ _ _ => true
  | _ => false

def ticks (es : List (Event Goroutine Channel Message)) : ℕ := es.countP isTick

/-- The ticks of the members of a type, and the harvests of that type which the processor gets. -/
def ticked (f : TriggerFunc) (t : HarvestType) : Event Goroutine Channel Message → ℕ
  | .met (.clock i) _ _ _ => if (f.tickers[i]?).map Ticker.type = some t then 1 else 0
  | _ => 0

def harvested (t : HarvestType) : Event Goroutine Channel Message → ℕ
  | .met .forwarder .processor _ m => if m = .event t then 1 else 0
  | _ => 0

section Steps
variable {f : TriggerFunc} {s s' : System} {e : Event Goroutine Channel Message} {i : ℕ} {t : Ticker}
  {c : Channel}

lemma Broadcasting.loop_work (i n : ℕ) : (Broadcasting.loop i n).work ≤ 2*(n-i) + 2 := by
  unfold Broadcasting.loop
  split <;> simp [Broadcasting.work]

lemma Inv.index (h : Inv f s) (hp : At t c (members s i)) : i < f.tickers.length :=
  (List.getElem?_eq_some_iff.mp (h.wired hp).1).1

/-- The starter has not started the member it is at. -/
theorem Stage.starting_index {md : Mode} {ts : List Ticker} {q : Broadcasting} {m : ℕ → Ticking}
    (h : Stage f md (.starting (t :: ts) i) q m) : i < f.tickers.length ∧ m i = .absent := by
  cases h with
  | starting hrest hk hup =>
    refine ⟨?_,(hup i).2.2 (Nat.zero_le _) le_rfl⟩
    by_contra hge
    rw [List.drop_eq_nil_iff.mpr (by simpa [TriggerFunc.tickers] using hge)] at hrest
    cases hrest

lemma Stage.hearing_lt {md : Mode} {p : Starting} {n : ℕ} {m : ℕ → Ticking}
    (h : Stage f md p (.hearing i n) m) : i < n := by
  cases h with
  | hearing ht hc hm => exact (List.getElem?_eq_some_iff.mp ht).1

lemma Inv.starting_index (h : Inv f s) {ts : List Ticker}
    (hp : s.place .starter = Starting.starting (t :: ts) i) :
    i < f.tickers.length ∧ members s i = .absent := by
  have hstage := h.stage
  rw [hp] at hstage
  exact hstage.starting_index

lemma Inv.hearing_lt (h : Inv f s) {n : ℕ} (hb : s.place .broadcaster = Broadcasting.hearing i n) :
    i < n := by
  have hstage := h.stage
  rw [hb] at hstage
  exact hstage.hearing_lt

/-! What the moves of two goroutines do to a measure. -/

section Together
variable (w : Measure) {n k : ℕ} {ts : List Ticker}

lemma Inv.total_offered (h : Inv f s) (hp : members s i = .sending t c)
    (hf : s.place .forwarder = Forwarding.forwarding) :
    w.total f.tickers.length ((s.move (.member i) (Ticking.waiting t c)).move .forwarder
        (Forwarding.handing t.type)) + (w.member (.sending t c) + w.forwarder .forwarding) =
      w.total f.tickers.length s + (w.member (.waiting t c) + w.forwarder (.handing t.type)) := by
  have hmember := w.total_member (h.index (.inl (.inr (.inr hp)))) hp (.waiting t c)
  have hforwarder := w.total_forwarder (n := f.tickers.length)
    (s := s.move (.member i) (Ticking.waiting t c)) hf (.handing t.type)
  omega

lemma Inv.total_started (h : Inv f s) (hp : s.place .starter = Starting.starting (t :: ts) i) :
    w.total f.tickers.length ((s.move (.member i) (Ticking.opening t (.member i))).move .starter
        (Starting.starting ts (i+1))) + (w.member .absent + w.starter (.starting (t :: ts) i)) =
      w.total f.tickers.length s +
        (w.member (.opening t (.member i)) + w.starter (.starting ts (i+1))) := by
  obtain ⟨hi,hm⟩ := h.starting_index hp
  have hmember := w.total_member hi hm (.opening t (.member i))
  have hstarter := w.total_starter (n := f.tickers.length)
    (s := s.move (.member i) (Ticking.opening t (.member i))) hp (.starting ts (i+1))
  omega

lemma total_grouped (hp : s.place .starter = Starting.starting [] i) :
    w.total n ((s.move .broadcaster (Broadcasting.listening i)).move .starter Starting.done) +
        (w.broadcaster (s.place .broadcaster) + w.starter (.starting [] i)) =
      w.total n s + (w.broadcaster (.listening i) + w.starter .done) := by
  have hbroadcaster := w.total_broadcaster (n := n) (s := s) rfl (.listening i)
  have hstarter := w.total_starter (n := n) (s := s.move .broadcaster (Broadcasting.listening i)) hp .done
  omega

lemma Inv.total_cancelledOne (h : Inv f s) (hp : s.place .closer = Closing.cancelling)
    (hm : members s i = .waiting t .cancel) :
    w.total f.tickers.length ((s.move .closer Closing.awaiting).move (.member i)
        (Ticking.confirming t .cancel)) + (w.closer .cancelling + w.member (.waiting t .cancel)) =
      w.total f.tickers.length s + (w.closer .awaiting + w.member (.confirming t .cancel)) := by
  have hcloser := w.total_closer (n := f.tickers.length) hp .awaiting
  have hmember := w.total_member (s := s.move .closer Closing.awaiting) (h.index (at_waiting hm)) hm
    (.confirming t .cancel)
  omega

lemma total_cancelled (hp : s.place .closer = Closing.cancelling)
    (hb : s.place .broadcaster = Broadcasting.listening k) :
    w.total n ((s.move .closer Closing.awaiting).move .broadcaster (Broadcasting.loop 0 k)) +
        (w.closer .cancelling + w.broadcaster (.listening k)) =
      w.total n s + (w.closer .awaiting + w.broadcaster (Broadcasting.loop 0 k)) := by
  have hcloser := w.total_closer (n := n) hp .awaiting
  have hbroadcaster := w.total_broadcaster (n := n) (s := s.move .closer Closing.awaiting) hb
    (Broadcasting.loop 0 k)
  omega

lemma Inv.total_told (h : Inv f s) (hb : s.place .broadcaster = Broadcasting.telling i k)
    (hm : members s i = .waiting t (.member i)) :
    w.total f.tickers.length ((s.move .broadcaster (Broadcasting.hearing i k)).move (.member i)
        (Ticking.confirming t (.member i))) +
        (w.broadcaster (.telling i k) + w.member (.waiting t (.member i))) =
      w.total f.tickers.length s +
        (w.broadcaster (.hearing i k) + w.member (.confirming t (.member i))) := by
  have hbroadcaster := w.total_broadcaster (n := f.tickers.length) hb (.hearing i k)
  have hmember := w.total_member (s := s.move .broadcaster (Broadcasting.hearing i k))
    (h.index (at_waiting hm)) hm (.confirming t (.member i))
  omega

lemma Inv.total_heard (h : Inv f s) (hb : s.place .broadcaster = Broadcasting.hearing i k)
    (hm : members s i = .confirming t (.member i)) :
    w.total f.tickers.length ((s.move (.member i) Ticking.done).move .broadcaster
        (Broadcasting.loop (i+1) k)) +
        (w.member (.confirming t (.member i)) + w.broadcaster (.hearing i k)) =
      w.total f.tickers.length s + (w.member .done + w.broadcaster (Broadcasting.loop (i+1) k)) := by
  have hmember := w.total_member (h.index (at_confirming hm)) hm .done
  have hbroadcaster := w.total_broadcaster (n := f.tickers.length)
    (s := s.move (.member i) Ticking.done) hb (Broadcasting.loop (i+1) k)
  omega

lemma Inv.total_confirmedOne (h : Inv f s) (hp : s.place .closer = Closing.awaiting)
    (hm : members s i = .confirming t .cancel) :
    w.total f.tickers.length ((s.move (.member i) Ticking.done).move .closer Closing.shutting) +
        (w.member (.confirming t .cancel) + w.closer .awaiting) =
      w.total f.tickers.length s + (w.member .done + w.closer .shutting) := by
  have hmember := w.total_member (h.index (at_confirming hm)) hm .done
  have hcloser := w.total_closer (n := f.tickers.length) (s := s.move (.member i) Ticking.done) hp .shutting
  omega

lemma total_confirmed (hp : s.place .closer = Closing.awaiting)
    (hb : s.place .broadcaster = Broadcasting.reporting) :
    w.total n ((s.move .broadcaster Broadcasting.done).move .closer Closing.shutting) +
        (w.broadcaster .reporting + w.closer .awaiting) =
      w.total n s + (w.broadcaster .done + w.closer .shutting) := by
  have hbroadcaster := w.total_broadcaster (n := n) hb .done
  have hcloser := w.total_closer (n := n) (s := s.move .broadcaster Broadcasting.done) hp .shutting
  omega

end Together

/-- Every step but a tick is one less to do. -/
theorem Inv.work_step (h : Inv f s) (hstep : Step offers s e s') :
    work.total f.tickers.length s' + 1 ≤ work.total f.tickers.length s + if isTick e then 3 else 0 := by
  cases h.move hstep with
  | @opened i t c hp =>
    have hw := work.total_member (h.index (.inl (.inl hp))) hp (.waiting t c)
    simp [Ticking.work,isTick] at hw ⊢
    omega
  | @ticked i t c hp =>
    have hw := work.total_member (h.index (at_waiting hp)) hp (.sending t c)
    simp [Ticking.work,isTick] at hw ⊢
    omega
  | offered hp hf =>
    have hw := h.total_offered work hp hf
    simp [Ticking.work,Forwarding.work,isTick] at hw ⊢
    omega
  | handed hf =>
    have hw := work.total_forwarder (n := f.tickers.length) hf .forwarding
    simp [Forwarding.work,isTick] at hw ⊢
    omega
  | ended hf hc =>
    have hw := work.total_forwarder (n := f.tickers.length) hf .done
    simp [Forwarding.work,isTick] at hw ⊢
    omega
  | started hp =>
    have hw := h.total_started work hp
    simp [Ticking.work,Starting.work,isTick] at hw ⊢
    omega
  | grouped hp =>
    have hw := total_grouped work (n := f.tickers.length) hp
    simp [Broadcasting.work,Starting.work,isTick] at hw ⊢
    omega
  | called hp =>
    have hw := work.total_closer (n := f.tickers.length) hp .cancelling
    simp [Closing.work,isTick] at hw ⊢
    omega
  | cancelledOne hp hm =>
    have hw := h.total_cancelledOne work hp hm
    simp [Closing.work,Ticking.work,isTick] at hw ⊢
    omega
  | @cancelled k hp hb =>
    have hw := total_cancelled work (n := f.tickers.length) hp hb
    have hloop := Broadcasting.loop_work 0 k
    simp [Closing.work,Broadcasting.work,isTick] at hw hloop ⊢
    omega
  | told hb hm =>
    have hw := h.total_told work hb hm
    simp [Broadcasting.work,Ticking.work,isTick] at hw ⊢
    omega
  | @heard i k t hb hm =>
    have hw := h.total_heard work hb hm
    have hloop := Broadcasting.loop_work (i+1) k
    have hlt : i < k := h.hearing_lt hb
    simp [Broadcasting.work,Ticking.work,isTick] at hw hloop ⊢
    omega
  | confirmedOne hp hm =>
    have hw := h.total_confirmedOne work hp hm
    simp [Closing.work,Ticking.work,isTick] at hw ⊢
    omega
  | confirmed hp hb =>
    have hw := total_confirmed work (n := f.tickers.length) hp hb
    simp [Closing.work,Broadcasting.work,isTick] at hw ⊢
    omega
  | shut hp =>
    have hw := work.total_closer (n := f.tickers.length) hp .closingTrigger
    simp [Closing.work,isTick] at hw ⊢
    omega
  | closedTrigger hp =>
    have hw := work.total_closer (n := f.tickers.length) hp .closingCancel
    simp [Closing.work,isTick] at hw ⊢
    omega
  | closedCancel hp =>
    have hw := work.total_closer (n := f.tickers.length) hp .done
    simp [Closing.work,isTick] at hw ⊢
    omega

/-- No harvest is lost or made up on the way to the processor. -/
theorem Inv.carried_step (h : Inv f s) (hstep : Step offers s e s') (u : HarvestType) :
    (carried u).total f.tickers.length s' + harvested u e =
      (carried u).total f.tickers.length s + ticked f u e := by
  cases h.move hstep with
  | @opened i t c hp =>
    have hw := (carried u).total_member (h.index (.inl (.inl hp))) hp (.waiting t c)
    simpa [Ticking.carried,harvested,ticked] using hw
  | @ticked i t c hp =>
    have hw := (carried u).total_member (h.index (at_waiting hp)) hp (.sending t c)
    have hi := (h.wired (at_waiting hp)).1
    simpa [hi,Ticking.carried,harvested,ticked] using hw
  | offered hp hf =>
    have hw := h.total_offered (carried u) hp hf
    simp [Ticking.carried,Forwarding.carried,harvested,ticked] at hw ⊢
    omega
  | handed hf =>
    have hw := (carried u).total_forwarder (n := f.tickers.length) hf .forwarding
    simpa [Forwarding.carried,harvested,ticked] using hw
  | ended hf hc =>
    have hw := (carried u).total_forwarder (n := f.tickers.length) hf .done
    simpa [Forwarding.carried,harvested,ticked] using hw
  | started hp =>
    have hw := h.total_started (carried u) hp
    simpa [Ticking.carried,harvested,ticked] using hw
  | grouped hp =>
    have hw := total_grouped (carried u) (n := f.tickers.length) hp
    simpa [harvested,ticked] using hw
  | called hp =>
    have hw := (carried u).total_closer (n := f.tickers.length) hp .cancelling
    simpa [harvested,ticked] using hw
  | cancelledOne hp hm =>
    have hw := h.total_cancelledOne (carried u) hp hm
    simpa [Ticking.carried,harvested,ticked] using hw
  | @cancelled k hp hb =>
    have hw := total_cancelled (carried u) (n := f.tickers.length) hp hb
    simpa [harvested,ticked] using hw
  | told hb hm =>
    have hw := h.total_told (carried u) hb hm
    simpa [Ticking.carried,harvested,ticked] using hw
  | @heard i k t hb hm =>
    have hw := h.total_heard (carried u) hb hm
    simpa [Ticking.carried,harvested,ticked] using hw
  | confirmedOne hp hm =>
    have hw := h.total_confirmedOne (carried u) hp hm
    simpa [Ticking.carried,harvested,ticked] using hw
  | confirmed hp hb =>
    have hw := total_confirmed (carried u) (n := f.tickers.length) hp hb
    simpa [harvested,ticked] using hw
  | shut hp =>
    have hw := (carried u).total_closer (n := f.tickers.length) hp .closingTrigger
    simpa [harvested,ticked] using hw
  | closedTrigger hp =>
    have hw := (carried u).total_closer (n := f.tickers.length) hp .closingCancel
    simpa [harvested,ticked] using hw
  | closedCancel hp =>
    have hw := (carried u).total_closer (n := f.tickers.length) hp .done
    simpa [harvested,ticked] using hw

/-- Nothing is left of the goroutines. -/
structure Finished (s : System) : Prop where
  starter : s.place .starter = Starting.absent ∨ s.place .starter = Starting.done
  broadcaster : s.place .broadcaster = Broadcasting.absent ∨ s.place .broadcaster = Broadcasting.done
  member : ∀ i, members s i = .absent ∨ members s i = .done
  forwarder : s.place .forwarder = Forwarding.done
  closer : s.place .closer = Closing.done

lemma Finished.carried_total (h : Finished s) (u : HarvestType) (n : ℕ) : (carried u).total n s = 0 := by
  have hmember : ∀ i < n, (members s i).carried u = 0 := fun i _ => by
    obtain hi | hi := h.member i <;> rw [hi] <;> rfl
  simpa [Measure.total,h.forwarder,Forwarding.carried] using hmember

/-- A step that is no tick. -/
def Moves (s : System) : Prop := ∃ e s', Step offers s e s' ∧ isTick e = false

lemma moves_of_handing {t : HarvestType} (hf : s.place .forwarder = Forwarding.handing t)
    (hopen : s.closed .processorHarvest = false) : Moves s :=
  ⟨_,_,.meet (i := .forwarder) (j := .processor) (by simp) hopen
    (Forwarding.mem_send.mpr ⟨t,hf,rfl,rfl,rfl⟩) (List.mem_singleton.mpr rfl),rfl⟩

lemma moves_of_act {g : Goroutine} {p : Place g} (ha : Offer.act p ∈ offers g (s.place g)) : Moves s :=
  ⟨_,_,.act ha,rfl⟩

/-- A ticker gets on until it waits. -/
theorem moves_of_active (hp : Active t c (members s i)) (hd : 0 < t.duration)
    (hf : s.place .forwarder = Forwarding.forwarding) (hopen : s.closed .trigger = false) :
    Moves s ∨ members s i = .waiting t c := by
  obtain hp | hp | hp := hp
  · exact .inl (moves_of_act (g := .member i) (Ticking.mem_act.mpr ⟨t,c,hp,hd,rfl⟩))
  · exact .inr hp
  · exact .inl ⟨_,_,.meet (i := .member i) (j := .forwarder) (by simp) hopen
      (Ticking.mem_send.mpr (.inl ⟨t,c,hp,rfl,rfl,rfl⟩)) (Forwarding.mem_recv.mpr ⟨hf,rfl,rfl⟩),rfl⟩

/-- A state in which the triggers are still open, and none of the channels between. -/
structure Open (f : TriggerFunc) (s : System) : Prop where
  inv : Inv f s
  durations : ∀ t ∈ f.tickers, 0 < t.duration
  forwarding : s.place .forwarder = Forwarding.forwarding
  trigger : s.closed .trigger = false
  cancel : s.closed .cancel = false
  member : ∀ i, s.closed (.member i) = false

lemma Open.waits (h : Open f s) (hat : Active t c (members s i)) :
    Moves s ∨ members s i = .waiting t c :=
  moves_of_active hat (h.durations t (List.mem_of_getElem? (h.inv.wired (.inl hat)).1)) h.forwarding h.trigger

/-- The call of `Close` gets through. -/
theorem Open.moves_of_cancelling (h : Open f s) (hp : s.place .closer = Closing.cancelling) : Moves s := by
  have hstage := h.inv.stage
  rw [hp] at hstage
  have hs : Offer.send .cancel .yes Closing.awaiting ∈ offers .closer (s.place .closer) :=
    Closing.mem_send.mpr ⟨hp,rfl,rfl,rfl⟩
  generalize hm : members s = m at hstage
  generalize hb : s.place .broadcaster = q at hstage
  generalize hst : s.place .starter = p at hstage
  cases hstage with
  | @one t m hup =>
    obtain ⟨u,-,hat⟩ : ∃ u, _ ∧ Active u .cancel (m 0) := (hup 0).2.1 le_rfl Nat.one_pos
    obtain hmoves | hwait := h.waits (hm ▸ hat)
    · exact hmoves
    · exact ⟨_,_,.meet (i := .closer) (j := .member 0) (by simp) h.cancel hs
        (Ticking.mem_recv.mpr ⟨u,_,hwait,.inr ⟨rfl,rfl⟩⟩),rfl⟩
  | @starting ts rest k m hrest hk hup =>
    cases rest with
    | nil => exact ⟨_,_,.start (i := .starter) (by rw [hst]; exact List.mem_singleton.mpr rfl),rfl⟩
    | cons t rest => exact ⟨_,_,.start (i := .starter) (by rw [hst]; exact List.mem_singleton.mpr rfl),rfl⟩
  | listening hup =>
    exact ⟨_,_,.meet (i := .closer) (j := .broadcaster) (by simp) h.cancel hs
      (Broadcasting.mem_recv.mpr (.inl ⟨_,hb,rfl,rfl⟩)),rfl⟩

/-- The confirmation comes. -/
theorem Open.moves_of_awaiting (h : Open f s) (hp : s.place .closer = Closing.awaiting) : Moves s := by
  have hstage := h.inv.stage
  rw [hp] at hstage
  have hr : Offer.recv .cancel (fun _ => Closing.shutting) ∈ offers .closer (s.place .closer) :=
    Closing.mem_recv.mpr ⟨hp,rfl,rfl⟩
  generalize hm : members s = m at hstage
  generalize hb : s.place .broadcaster = q at hstage
  generalize hst : s.place .starter = p at hstage
  cases hstage with
  | oneStopping h0 hup =>
    exact ⟨_,_,.meet (i := .member 0) (j := .closer) (by simp) h.cancel
      (Ticking.mem_send.mpr (.inr ⟨_,(congrFun hm 0).trans h0,rfl,rfl⟩)) hr,rfl⟩
  | @telling ts k m hk hup =>
    obtain ⟨u,-,hat⟩ : ∃ u, _ ∧ Active u (.member k) (m k) := (hup k).2.1 le_rfl hk
    obtain hmoves | hwait := h.waits (hm ▸ hat)
    · exact hmoves
    · exact ⟨_,_,.meet (i := .broadcaster) (j := .member k) (by simp) (h.member k)
        (Broadcasting.mem_send.mpr (.inl ⟨_,_,hb,rfl,rfl,rfl⟩))
        (Ticking.mem_recv.mpr ⟨u,_,hwait,.inr ⟨rfl,rfl⟩⟩),rfl⟩
  | @hearing ts k t m ht hc hup =>
    exact ⟨_,_,.meet (i := .member k) (j := .broadcaster) (by simp) (h.member k)
      (Ticking.mem_send.mpr (.inr ⟨_,(congrFun hm k).trans hc,rfl,rfl⟩))
      (Broadcasting.mem_recv.mpr (.inr ⟨_,_,hb,rfl,rfl⟩)),rfl⟩
  | reporting hup =>
    exact ⟨_,_,.meet (i := .broadcaster) (j := .closer) (by simp) h.cancel
      (Broadcasting.mem_send.mpr (.inr ⟨hb,rfl,rfl,rfl⟩)) hr,rfl⟩

lemma Inv.not_closed (h : Inv f s) (c : Channel) (ht : c ≠ .trigger) (hc : c ≠ .cancel) :
    s.closed c = false := by
  by_contra hclosed
  obtain rfl | rfl := h.closed_only c (by simpa using hclosed)
  · exact ht rfl
  · exact hc rfl

lemma Inv.moves_of_closingCancel (h : Inv f s) (hp : s.place .closer = Closing.closingCancel) :
    Moves s := by
  have hopen : s.closed .cancel = false := by
    by_contra hclosed
    exact absurd (hp.symm.trans (h.closed_cancel.mp (by simpa using hclosed))) (by simp)
  exact ⟨_,_,.close (i := .closer) hopen (Closing.mem_close.mpr (.inr ⟨hp,rfl,rfl⟩)),rfl⟩

/-- Once `Close` is called, something other than a clock can go on until nothing is left. -/
theorem Inv.progress (h : Inv f s) (hpos : ∀ t ∈ f.tickers, 0 < t.duration)
    (hcalled : s.place .closer ≠ Closing.unclosed) : Finished s ∨ Moves s := by
  cases hf : s.place .forwarder with
  | handing t => exact .inr (moves_of_handing hf (h.not_closed _ (by simp) (by simp)))
  | done =>
    obtain hp | hp := h.closed_trigger.mp (h.forwarder hf)
    · exact .inr (h.moves_of_closingCancel hp)
    · obtain ⟨hs,hb,hm⟩ := (h.stopped_of_trigger (h.forwarder hf)).quiet
      exact .inl ⟨hs,hb,hm,hf,hp⟩
  | forwarding =>
    refine .inr ?_
    by_cases htrigger : s.closed .trigger = true
    · exact ⟨_,_,.drain (i := .forwarder) htrigger (Forwarding.mem_recv.mpr ⟨hf,rfl,rfl⟩),rfl⟩
    · have hopen : Open f s := ⟨h,hpos,hf,by simpa using htrigger,
        by simpa using mt h.trigger_of_cancel htrigger,fun i => h.not_closed _ (by simp) (by simp)⟩
      cases hp : s.place .closer with
      | unclosed => exact absurd hp hcalled
      | cancelling => exact hopen.moves_of_cancelling hp
      | awaiting => exact hopen.moves_of_awaiting hp
      | shutting =>
        exact moves_of_act (g := .closer) (Closing.mem_act.mpr (.inr ⟨hp,rfl⟩))
      | closingTrigger =>
        exact ⟨_,_,.close (i := .closer) hopen.trigger (Closing.mem_close.mpr (.inl ⟨hp,rfl,rfl⟩)),rfl⟩
      | closingCancel => exact absurd (h.closed_trigger.mpr (.inl hp)) htrigger
      | done => exact absurd (h.closed_trigger.mpr (.inr hp)) htrigger

end Steps

/-! ### The trigger of a connected app -/

def reportPeriods (c : EventConfigs) : List Duration :=
  [c.errorEventConfig.reportPeriod,c.analyticEventConfig.reportPeriod,c.customEventConfig.reportPeriod,
    c.spanEventConfig.reportPeriod,c.logEventConfig.reportPeriod]

/-- "Report period durations can never be negative". -/
def PeriodsFine (reply : Option ConnectReply) : Prop :=
  ∀ r ∈ reply, ∀ p ∈ reportPeriods r.eventHarvestConfig.eventConfigs, 0 ≤ p

/-- There always is a trigger, and its tickers have durations above 0. -/
theorem getHarvestTrigger_fine {reply : Option ConnectReply} (h : PeriodsFine reply) :
    ∃ f, getHarvestTrigger reply = some f ∧ ∀ t ∈ f.tickers, 0 < t.duration := by
  unfold getHarvestTrigger
  split
  · refine ⟨_,rfl,?_⟩
    simpa [triggerBuilder,TriggerFunc.tickers] using defaultReportPeriod_pos
  · cases reply with
    | none => exact absurd rfl ‹¬ isHarvestAll none = true›
    | some r =>
      have hp := h r rfl
      simp only [reportPeriods,List.forall_mem_cons,List.not_mem_nil,false_implies,implies_true,
        and_true] at hp
      obtain ⟨herror,hanalytic,hcustom,hspan,hlog⟩ := hp
      refine ⟨_,rfl,?_⟩
      simp only [EventHarvestConfig.customTriggerBuilder,TriggerFunc.tickers,List.forall_mem_cons,
        List.not_mem_nil,checkReportPeriod_pos,false_implies,implies_true,and_true]
      exact ⟨defaultReportPeriod_pos,hanalytic,hcustom,herror,hspan,hlog⟩

section Runs
variable {reply : Option ConnectReply} {f : TriggerFunc} {s s' : System}
  {es es' : List (Event Goroutine Channel Message)}

lemma getHarvestTrigger_durations (hf : getHarvestTrigger reply = some f) (h : PeriodsFine reply) :
    ∀ t ∈ f.tickers, 0 < t.duration := by
  obtain ⟨g,hg,hpos⟩ := getHarvestTrigger_fine h
  obtain rfl := Option.some.inj (hf.symm.trans hg)
  exact hpos

/-- Whatever the order of their steps, no goroutine sends on a closed channel, closes one twice or opens
a ticker that panics, and when `Close` closes the channels the other senders are gone. -/
theorem never_panics (hf : getHarvestTrigger reply = some f) (h : PeriodsFine reply)
    (hrun : Run offers f.initial es s) :
    ¬ Panics offers s ∧ (s.closed .trigger = true →
      (s.place .starter = Starting.absent ∨ s.place .starter = Starting.done) ∧
      (s.place .broadcaster = Broadcasting.absent ∨ s.place .broadcaster = Broadcasting.done) ∧
      ∀ i, members s i = .absent ∨ members s i = .done) := by
  have hinv := Inv.run hrun
  exact ⟨hinv.safe (getHarvestTrigger_durations hf h),fun hc => (hinv.stopped_of_trigger hc).quiet⟩

lemma work_initial (f : TriggerFunc) :
    work.total f.tickers.length f.initial ≤ 6*f.tickers.length + 11 := by
  cases f with
  | one t =>
    simp [Measure.total,TriggerFunc.tickers,TriggerFunc.initial,members,Starting.work,Broadcasting.work,
      Ticking.work,Forwarding.work,Closing.work]
  | group ts =>
    simp [Measure.total,TriggerFunc.tickers,TriggerFunc.initial,members,Starting.work,Broadcasting.work,
      Ticking.work,Forwarding.work,Closing.work]

lemma sum_given (es : List (Event Goroutine Channel Message)) :
    (es.map fun e => if isTick e then 3 else 0).sum = 3*ticks es := by
  induction es with
  | nil => rfl
  | cons e es ih =>
    rw [List.map_cons,List.sum_cons,ih,ticks,ticks,List.countP_cons]
    cases isTick e
    · simp
    · simp
      omega

/-- A tick is worth two steps more, and without ticks every run is over soon. -/
theorem length_le (hrun : Run offers f.initial es s) :
    work.total f.tickers.length s + es.length ≤ 6*f.tickers.length + 11 + 3*ticks es := by
  have hpays : work.total f.tickers.length s + (es.map fun _ => 1).sum ≤
      work.total f.tickers.length f.initial + (es.map fun e => if isTick e then 3 else 0).sum :=
    hrun.pays_le (fun _ _ _ hi hstep => hi.step hstep) (fun _ _ _ hi hstep => hi.work_step hstep)
      (Inv.initial f)
  have hinit := work_initial f
  rw [sum_given,List.map_const',List.sum_replicate] at hpays
  simp at hpays
  omega

lemma Inv.called_step {e : Event Goroutine Channel Message} (h : Inv f s)
    (hstep : Step offers s e s') (hcalled : s.place .closer ≠ Closing.unclosed) :
    s'.place .closer ≠ Closing.unclosed := by
  cases h.move hstep with
  | opened | ticked | offered | handed | ended | started | grouped | told | heard => simpa using hcalled
  | called | cancelledOne | cancelled | confirmedOne | confirmed | shut | closedTrigger | closedCancel =>
    simp

/-- From every state in which `Close` is called, steps without ticks lead to the end. -/
theorem Inv.finishes (hpos : ∀ t ∈ f.tickers, 0 < t.duration) (h : Inv f s)
    (hcalled : s.place .closer ≠ Closing.unclosed) :
    ∃ es s', Run offers s es s' ∧ ticks es = 0 ∧ Finished s' := by
  induction hn : work.total f.tickers.length s using Nat.strong_induction_on generalizing s with
  | _ n ih =>
    subst hn
    obtain hfin | ⟨e,t,hstep,htick⟩ := h.progress hpos hcalled
    · exact ⟨[],s,.nil,rfl,hfin⟩
    · have hless := h.work_step hstep
      rw [htick] at hless
      obtain ⟨es,s',hrun,hticks,hfin⟩ :=
        ih _ (by simpa using hless) (h.step hstep) (h.called_step hstep hcalled) rfl
      refine ⟨e :: es,s',?_,?_,hfin⟩
      · exact Run.trans (.snoc .nil hstep) hrun
      · simpa [ticks,List.countP_cons,htick] using hticks

/-- A call of `Close` comes to its end: from where it is called, the goroutines can all finish without a
further tick, and for any number of ticks there is a bound on the steps before they have. -/
theorem close_completes (hf : getHarvestTrigger reply = some f) (h : PeriodsFine reply)
    (hrun : Run offers f.initial es s) (hcalled : s.place .closer ≠ Closing.unclosed) :
    (∃ es' s', Run offers s es' s' ∧ ticks es' = 0 ∧ Finished s') ∧
      es.length ≤ 3*ticks es + 6*f.tickers.length + 11 ∧ (Finished s ∨ Moves s) := by
  have hpos := getHarvestTrigger_durations hf h
  have hinv := Inv.run hrun
  have hlength := length_le hrun
  exact ⟨hinv.finishes hpos hcalled,by omega,hinv.progress hpos hcalled⟩

lemma carried_initial (f : TriggerFunc) (u : HarvestType) :
    (carried u).total f.tickers.length f.initial = 0 := by
  have hmember : ∀ i < f.tickers.length, (members f.initial i).carried u = 0 := by
    intro i hi
    cases f with
    | one t => cases i <;> rfl
    | group ts => rfl
  simpa [Measure.total,TriggerFunc.initial,Forwarding.carried] using hmember

/-- The processor gets each tick of a ticker as one harvest of its type, and no other: those missing are
in the hands of a goroutine, and none is when all are finished. -/
theorem harvests_are_ticks (hrun : Run offers f.initial es s) (u : HarvestType) :
    (es.map (harvested u)).sum + (carried u).total f.tickers.length s = (es.map (ticked f u)).sum ∧
      (Finished s → (es.map (harvested u)).sum = (es.map (ticked f u)).sum) := by
  have hbalance : (carried u).total f.tickers.length s + (es.map (harvested u)).sum =
      (carried u).total f.tickers.length f.initial + (es.map (ticked f u)).sum :=
    hrun.balance (fun _ _ _ hi hstep => hi.step hstep) (fun _ _ _ hi hstep => hi.carried_step hstep u)
      (Inv.initial f)
  have hinit := carried_initial f u
  refine ⟨by omega,fun hfin => ?_⟩
  have hnone := hfin.carried_total u f.tickers.length
  omega

end Runs

section Witnesses

/-- The trigger of an app without a reply, with its one ticker. -/
def defaultTrigger : TriggerFunc := triggerBuilder .all Limits.defaultReportPeriod

lemma default_trigger : getHarvestTrigger none = some defaultTrigger := rfl

/-- The ticker of a fresh app ticks, `Close` is called while the tick waits, and all come to an end. -/
def closingEvents : List (Event Goroutine Channel Message) :=
  [.acted (.member 0),.met (.clock 0) (.member 0) (.ticks 0) .tick,.acted .closer,
    .met (.member 0) .forwarder .trigger (.type .all),
    .met .forwarder .processor .processorHarvest (.event .all),
    .met .closer (.member 0) .cancel .yes,.met (.member 0) .closer .cancel .yes,.acted .closer,
    .closed .closer .trigger,.closed .closer .cancel,.drained .forwarder .trigger]

lemma closing_run : ∃ s, Run offers defaultTrigger.initial closingEvents s ∧ Finished s := by
  have one : ∀ {α : Type} {a : α}, a ∈ [a] := List.mem_singleton.mpr rfl
  have opened : Run offers defaultTrigger.initial [.acted (.member 0)] _ := .snoc .nil (.act one)
  have ticked := opened.snoc (.meet (i := .clock 0) (j := .member 0) (by decide) rfl one List.mem_cons_self)
  have called := ticked.snoc (.act (i := .closer) one)
  have offered := called.snoc (.meet (i := .member 0) (j := .forwarder) (by decide) rfl one one)
  have handed := offered.snoc (.meet (i := .forwarder) (j := .processor) (by decide) rfl one one)
  have cancelled := handed.snoc (.meet (i := .closer) (j := .member 0) (by decide) rfl one
    (List.mem_cons_of_mem _ one))
  have confirmed := cancelled.snoc (.meet (i := .member 0) (j := .closer) (by decide) rfl one one)
  have shut := confirmed.snoc (.act (i := .closer) one)
  have triggerClosed := shut.snoc (.close (i := .closer) rfl one)
  have cancelClosed := triggerClosed.snoc (.close (i := .closer) rfl one)
  have ended := cancelClosed.snoc (.drain (i := .forwarder) rfl one)
  refine ⟨_,ended,.inl rfl,.inl rfl,fun i => ?_,rfl,rfl⟩
  cases i with
  | zero => exact .inr rfl
  | succ i => exact .inl rfl

theorem never_panics_default : ∃ s, Run offers defaultTrigger.initial closingEvents s ∧
    ¬ Panics offers s := by
  obtain ⟨s,hrun,-⟩ := closing_run
  exact ⟨s,hrun,(never_panics default_trigger (by simp [PeriodsFine]) hrun).1⟩

/-- A reply that has the error events harvested every five seconds. -/
def errorsOften : ConnectReply :=
  ⟨"1",60,10,⟨Limits.defaultReportPeriod,⟨⟨100,5*10^9⟩,⟨10000,Limits.defaultReportPeriod⟩,
    ⟨30000,Limits.defaultReportPeriod⟩,⟨2000,Limits.defaultReportPeriod⟩,
    ⟨10000,Limits.defaultReportPeriod⟩⟩⟩,1000000⟩

/-- A group has just been started with one of its members when `Close` is called. -/
theorem close_completes_group : ∃ s, Run offers errorsOften.eventHarvestConfig.customTriggerBuilder.initial
      [.started .starter (.member 0),.acted .closer] s ∧
    ¬ Finished s ∧ ∃ es' s', Run offers s es' s' ∧ ticks es' = 0 ∧ Finished s' := by
  have one : ∀ {α : Type} {a : α}, a ∈ [a] := List.mem_singleton.mpr rfl
  have started : Run offers errorsOften.eventHarvestConfig.customTriggerBuilder.initial
    [.started .starter (.member 0)] _ := .snoc .nil (.start one)
  have called := started.snoc (.act (i := .closer) one)
  refine ⟨_,called,?_,?_⟩
  · intro hfin
    cases hfin.closer
  · have hfine : PeriodsFine (some errorsOften) := by
      intro r hr
      cases hr
      decide
    exact (close_completes rfl hfine called (by decide)).1

theorem harvests_are_ticks_default : (closingEvents.map (harvested .all)).sum = 1 := by
  obtain ⟨s,hrun,hfin⟩ := closing_run
  exact (harvests_are_ticks hrun .all).2 hfin

end Witnesses

end PhpAgent.HarvestTrigger
