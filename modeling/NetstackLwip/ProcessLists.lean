import NetstackLwip.HalfClose
import NetstackLwip.ProcessTables

namespace NetstackLwip

/-!
# What holds of every process

Which pcbs may be on the lists of connections, and that every TCP pcb which
`tcp_alloc` hands out comes from the pool or from one of these lists.
-/

open FaultMachine
open FaultState

/-- Both parts of a computation that has returned have returned. -/
theorem bind_returned
    {ε α β : Type}
    {first : Except ε α}
    {next : α → Except ε β}
    {result : β}
    (done : (first >>= next) = .ok result) :
    ∃ value, first = .ok value ∧ next value = .ok result := by
  cases first with
  | error fault =>
      cases done
  | ok value =>
      exact ⟨value, rfl, done⟩

/-! ## What a step leaves of a pcb -/

theorem Conn.step_moves
    {conn after : Conn}
    {pcb : TcpPcb}
    {label : Label}
    (reached : connMachine.Reached conn)
    (current : conn.pcb = some pcb)
    (taken : conn.step label = .ok after) :
    ∃ recv outcome,
      ReceivesOrFreed (fun _ _ _ => True) pcb conn.world.stream label.event
        recv (after.pcb, outcome) after.world.stream := by
  obtain ⟨attached, inUse⟩ := attached_of_reached reached current
  have moved :=
    @Conn.step_receives (fun _ => True) (fun _ _ _ => True)
      (fun _ _ => trivial) trivial conn pcb current attached inUse label
      fun _ _ _ _ _ _ _ _ =>
        wp_of_outcomes (fun _ _ _ => trivial) fun _ _ => trivial
  rw [taken] at moved
  obtain ⟨outcome, -, moved⟩ := moved
  exact ⟨_, outcome, moved⟩

/-- A pcb in TIME_WAIT stays there until it is freed. -/
theorem Conn.step_timeWait
    {conn after : Conn}
    {pcb next : TcpPcb}
    {label : Label}
    (reached : connMachine.Reached conn)
    (current : conn.pcb = some pcb)
    (waiting : pcb.state = .timeWait)
    (taken : conn.step label = .ok after)
    (left : after.pcb = some next) :
    next.state = .timeWait := by
  obtain ⟨recv, outcome, moved⟩ := Conn.step_moves reached current taken
  rw [left] at moved
  have receives :
      Receives (fun _ _ _ => True) pcb conn.world.stream label.event recv
        outcome next after.world.stream := moved
  generalize label.event = event, after.world.stream = later at receives
  cases receives with
  | idle state =>
      rcases state with same | shuts
      · exact same.trans waiting
      · exact absurd waiting shuts.from_open
  | stale state => exact state.trans waiting
  | read _ _ _ _ state => exact state.trans waiting
  | segment packet _ moves =>
      rw [waiting] at moves
      generalize recv.gotFin = fin, next.state = state at moves
      cases moves
      rfl
  | accepted _ _ _ _ synRcvd =>
      rw [waiting] at synRcvd
      cases synRcvd
  | dropped state => exact state.trans waiting

/-- `tcp_handle_closepend` and the drop of a listener free no pcb, and bring
none into TIME_WAIT. -/
theorem Conn.step_shared
    {conn after : Conn}
    {pcb : TcpPcb}
    {label : Label}
    (reached : connMachine.Reached conn)
    (current : conn.pcb = some pcb)
    (shared :
      label.event = .handleClosepend ∨ label.event = .dropListener)
    (taken : conn.step label = .ok after) :
    ∃ next,
      after.pcb = some next ∧
        (next.state = .timeWait ↔ pcb.state = .timeWait) := by
  obtain ⟨recv, outcome, moved⟩ := Conn.step_moves reached current taken
  cases left : after.pcb with
  | none =>
      rw [left] at moved
      have freed :
          Freed pcb conn.world.stream label.event after.world.stream := moved
      rcases shared with event | event <;>
        · rw [event] at freed
          cases freed
  | some next =>
      refine ⟨next, rfl, ?_⟩
      rw [left] at moved
      have receives :
          Receives (fun _ _ _ => True) pcb conn.world.stream label.event recv
            outcome next after.world.stream := moved
      have state : next.state = pcb.state ∨ Shuts pcb.state next.state := by
        rcases shared with event | event <;>
          · rw [event] at receives
            cases receives with
            | idle state => exact state
      rcases state with same | shuts
      · rw [same]
      · exact iff_of_false shuts.ne_timeWait shuts.from_open

/-! ## What the process keeps -/

/-- A listed pcb belongs to a connection as they can be reached, and is in
TIME_WAIT or not, as its list says. -/
structure Link.Sound (waits : Bool) (link : Link) : Prop where
  reached : connMachine.Reached link.conn
  state :
    ∃ pcb,
      link.conn.pcb = some pcb ∧ (pcb.state = .timeWait ↔ waits = true)

/-- An event that leaves the pcb where it is. -/
theorem Link.Sound.step
    {waits : Bool}
    {link : Link}
    {label : Label}
    {conn : Conn}
    (sound : link.Sound waits)
    (taken : link.conn.step label = .ok conn)
    (state :
      ∃ pcb, conn.pcb = some pcb ∧ (pcb.state = .timeWait ↔ waits = true)) :
    Link.Sound waits { link with conn } where
  reached := .next sound.reached trivial taken
  state := state

theorem Link.Sound.shared
    {waits : Bool}
    {link : Link}
    {label : Label}
    {conn : Conn}
    (sound : link.Sound waits)
    (shared :
      label.event = .handleClosepend ∨ label.event = .dropListener)
    (taken : link.conn.step label = .ok conn) :
    Link.Sound waits { link with conn } := by
  obtain ⟨pcb, current, state⟩ := sound.state
  obtain ⟨next, left, same⟩ :=
    Conn.step_shared sound.reached current shared taken
  exact sound.step taken ⟨next, left, same.trans state⟩

/-- What holds of each step of a list holds of the whole list. -/
theorem eventAtEach_each
    {label : Link → Option Label}
    {relates : Link → Link → Prop}
    {links after : List Link}
    (each :
      ∀ link ∈ links, ∀ conn,
        (label link).elim (.ok link.conn) link.conn.step = .ok conn →
          relates link { link with conn })
    (done : eventAtEach label links = .ok after) :
    List.Forall₂ relates links after := by
  induction links generalizing after with
  | nil =>
      cases done
      exact .nil
  | cons link rest inductionHypothesis =>
      obtain ⟨conn, taken, done⟩ := bind_returned done
      obtain ⟨others, taken', done⟩ := bind_returned done
      cases done
      exact .cons (each link List.mem_cons_self conn taken)
        (inductionHypothesis
          (fun other member => each other (List.mem_cons_of_mem _ member))
          taken')

theorem forall_of_each
    {holds : Link → Prop}
    {links after : List Link}
    (each : List.Forall₂ (fun _ next => holds next) links after) :
    ∀ next ∈ after, holds next := by
  induction each with
  | nil => simp
  | cons first _ inductionHypothesis =>
      exact List.forall_mem_cons.mpr ⟨first, inductionHypothesis⟩

theorem eventAtEach_length
    {label : Link → Option Label}
    {links after : List Link}
    (done : eventAtEach label links = .ok after) :
    after.length = links.length := by
  have each : List.Forall₂ (fun _ _ => True) links after :=
    eventAtEach_each (fun _ _ _ _ => trivial) done
  exact each.length_eq.symm

/-- A change at one address, to a pcb as the list has them. -/
theorem forall_replaced
    {holds : Link → Prop}
    {links : List Link}
    {link : Link}
    (each : ∀ other ∈ links, holds other)
    (new : holds link)
    (addr : Nat) :
    ∀ other ∈ links.map fun other =>
        if other.addr = addr then link else other,
      holds other := by
  intro other member
  obtain ⟨old, isOld, rfl⟩ := List.mem_map.mp member
  split
  · exact new
  · exact each old isOld

/-! ## The searches of `tcp_alloc` -/

theorem oldest_mem
    {tcpTicks inactivity : BitVec 32}
    {links : List Link}
    {inactive : Option Link}
    {link : Link}
    (found : oldest tcpTicks links inactivity inactive = some link) :
    inactive = some link ∨ link ∈ links := by
  induction links generalizing inactivity inactive with
  | nil =>
      exact .inl found
  | cons first rest inductionHypothesis =>
      unfold oldest at found
      split at found
      · rcases inductionHypothesis found with same | member
        · exact .inr (Option.some.inj same ▸ List.mem_cons_self)
        · exact .inr (List.mem_cons_of_mem _ member)
      · rcases inductionHypothesis found with same | member
        · exact .inl same
        · exact .inr (List.mem_cons_of_mem _ member)

theorem leastPrio_mem
    {tcpTicks inactivity : BitVec 32}
    {links : List Link}
    {mprio : Nat}
    {inactive : Option Link}
    {link : Link}
    (found : leastPrio tcpTicks links mprio inactivity inactive = some link) :
    inactive = some link ∨ link ∈ links := by
  induction links generalizing mprio inactivity inactive with
  | nil =>
      exact .inl found
  | cons first rest inductionHypothesis =>
      unfold leastPrio at found
      split at found
      · rcases inductionHypothesis found with same | member
        · exact .inr (Option.some.inj same ▸ List.mem_cons_self)
        · exact .inr (List.mem_cons_of_mem _ member)
      · rcases inductionHypothesis found with same | member
        · exact .inl same
        · exact .inr (List.mem_cons_of_mem _ member)

namespace Process

/-- What holds of every process. -/
structure Sound (process : Process) : Prop where
  active : ∀ link ∈ process.activePcbs, link.Sound false
  timeWait : ∀ link ∈ process.twPcbs, link.Sound true
  udp : process.udp.Sound

/-- The lists of connections and the UDP side are those of another process. -/
theorem Sound.congr
    {before after : Process}
    (sound : before.Sound)
    (active : after.activePcbs = before.activePcbs)
    (timeWait : after.twPcbs = before.twPcbs)
    (udp : after.udp = before.udp) :
    after.Sound where
  active := active ▸ sound.active
  timeWait := timeWait ▸ sound.timeWait
  udp := udp ▸ sound.udp

/-! ### Allocation -/

/-- The TCP pcbs that are free or belong to a connection. -/
def tcpPcbs (process : Process) : Nat :=
  process.tcpPool.length + process.activePcbs.length + process.twPcbs.length

/-- The pcbs may have changed places among the pool and the lists of
connections. -/
structure Keeps (before after : Process) : Prop where
  sound : after.Sound
  pcbs : after.tcpPcbs = before.tcpPcbs

theorem length_eraseP_addr
    {links : List Link}
    {link : Link}
    (member : link ∈ links) :
    (links.eraseP fun other => other.addr == link.addr).length + 1 =
      links.length := by
  have shorter :=
    List.length_eraseP_of_mem (p := fun other : Link => other.addr == link.addr)
      member (by simp)
  have positive := List.length_pos_of_mem member
  omega

/-- A pcb goes from the list that its state says to the pool. -/
theorem tcpAbandonLink_keeps
    {before after : Process}
    {link : Link}
    {waits reset : Bool}
    {kill : Chances}
    (sound : before.Sound)
    (listed : link ∈ bif waits then before.twPcbs else before.activePcbs)
    (done : before.tcpAbandonLink link reset kill = .ok after) :
    Keeps before after := by
  have linkSound : link.Sound waits := by
    cases waits with
    | false => exact sound.active link listed
    | true => exact sound.timeWait link listed
  obtain ⟨pcb, present, state⟩ := linkSound.state
  unfold tcpAbandonLink at done
  rw [present] at done
  obtain ⟨_, -, done⟩ := bind_returned done
  have shorter := length_eraseP_addr listed
  cases waits with
  | false =>
      rw [if_neg fun waiting => Bool.false_ne_true (state.mp waiting)] at done
      cases done
      refine ⟨⟨fun other member =>
        sound.active other (List.mem_of_mem_eraseP member),
        sound.timeWait, sound.udp⟩, ?_⟩
      simp only [tcpPcbs, List.length_cons, cond_false] at shorter ⊢
      omega
  | true =>
      rw [if_pos (state.mpr rfl)] at done
      cases done
      refine ⟨⟨sound.active, fun other member =>
        sound.timeWait other (List.mem_of_mem_eraseP member), sound.udp⟩, ?_⟩
      simp only [tcpPcbs, List.length_cons, cond_true] at shorter ⊢
      omega

theorem tcpKillTimewait_keeps
    {before after : Process}
    {kill : Chances}
    (sound : before.Sound)
    (done : before.tcpKillTimewait kill = .ok after) :
    Keeps before after := by
  unfold tcpKillTimewait at done
  cases found : oldest before.tcpTicks before.twPcbs 0 none with
  | none =>
      rw [found] at done
      cases done
      exact ⟨sound, rfl⟩
  | some link =>
      rw [found] at done
      have member : link ∈ before.twPcbs :=
        (oldest_mem found).resolve_left nofun
      exact @tcpAbandonLink_keeps _ _ link true _ _ sound member done

theorem tcpKillState_keeps
    {before after : Process}
    {state : TcpState}
    {kill : Chances}
    (sound : before.Sound)
    (done : before.tcpKillState state kill = .ok after) :
    Keeps before after := by
  unfold tcpKillState at done
  cases found :
      oldest before.tcpTicks (before.activePcbs.filter (Link.inState state)) 0
        none with
  | none =>
      rw [found] at done
      cases done
      exact ⟨sound, rfl⟩
  | some link =>
      rw [found] at done
      have member : link ∈ before.activePcbs :=
        (List.mem_filter.mp ((oldest_mem found).resolve_left nofun)).1
      exact @tcpAbandonLink_keeps _ _ link false _ _ sound member done

theorem tcpKillPrio_keeps
    {before after : Process}
    {prio : Nat}
    {kill : Chances}
    (sound : before.Sound)
    (done : before.tcpKillPrio prio kill = .ok after) :
    Keeps before after := by
  unfold tcpKillPrio at done
  split at done
  · cases done
    exact ⟨sound, rfl⟩
  · cases found :
        leastPrio before.tcpTicks before.activePcbs (min tcpPrioMax prio - 1) 0
          none with
    | none =>
        rw [found] at done
        cases done
        exact ⟨sound, rfl⟩
    | some link =>
        rw [found] at done
        have member : link ∈ before.activePcbs :=
          (leastPrio_mem found).resolve_left nofun
        exact @tcpAbandonLink_keeps _ _ link false _ _ sound member done

theorem tcpHandleClosepend_keeps
    {before after : Process}
    {retries : Nat → Chances}
    (sound : before.Sound)
    (done : before.tcpHandleClosepend retries = .ok after) :
    Keeps before after := by
  obtain ⟨activePcbs, taken, done⟩ := bind_returned done
  cases done
  have each :
      List.Forall₂ (fun _ next : Link => next.Sound false)
        before.activePcbs activePcbs := by
    refine eventAtEach_each (fun link member conn stepped => ?_) taken
    have ran :
        link.conn.step ((retries link.addr).label .handleClosepend) =
          .ok conn := stepped
    exact (sound.active link member).shared (.inl rfl) ran
  refine ⟨⟨forall_of_each each, sound.timeWait, sound.udp⟩, ?_⟩
  simp only [tcpPcbs, eventAtEach_length taken]

/-- The pcb that was allocated, if any, is missing from the others. -/
structure Allocates
    (before : Process)
    (attempt : Option Nat × Process) : Prop where
  sound : attempt.2.Sound
  pcbs : attempt.2.tcpPcbs + attempt.1.toList.length = before.tcpPcbs

theorem mallocPcb_allocates
    {process : Process}
    (sound : process.Sound) :
    Allocates process process.mallocPcb := by
  unfold mallocPcb
  cases pool : process.tcpPool with
  | nil =>
      exact ⟨sound, rfl⟩
  | cons addr rest =>
      refine ⟨sound.congr rfl rfl rfl, ?_⟩
      simp only [tcpPcbs, pool, List.length_cons, Option.toList_some,
        List.length_nil]
      omega

theorem Allocates.after
    {before : Process}
    {makeRoom : Process → Except Fault Process}
    {attempt result : Option Nat × Process}
    (allocates : Allocates before attempt)
    (room :
      ∀ start made,
        start.Sound → makeRoom start = .ok made → Keeps start made)
    (done : mallocAfter makeRoom attempt = .ok result) :
    Allocates before result := by
  obtain ⟨pcb, process⟩ := attempt
  cases pcb with
  | some addr =>
      cases done
      exact allocates
  | none =>
      obtain ⟨made, makes, done⟩ := bind_returned done
      cases done
      have keeps := room process made allocates.sound makes
      have again := mallocPcb_allocates keeps.sound
      exact ⟨again.sound,
        again.pcbs.trans (keeps.pcbs.trans allocates.pcbs)⟩

/-- `tcp_alloc` hands out what it takes from the pool or from a connection. -/
theorem tcpAlloc_allocates
    {before : Process}
    {prio : Nat}
    {retries : Nat → Chances}
    {kill : Chances}
    {result : Option Nat × Process}
    (sound : before.Sound)
    (done : before.tcpAlloc prio retries kill = .ok result) :
    Allocates before result := by
  obtain ⟨second, made, done⟩ := bind_returned done
  obtain ⟨third, fromSecond, done⟩ := bind_returned done
  obtain ⟨fourth, fromThird, fromFourth⟩ := bind_returned done
  have first := (mallocPcb_allocates sound).after (fun start made sound done => by
    obtain ⟨closed, closes, kills⟩ := bind_returned done
    have closeKeeps := tcpHandleClosepend_keeps sound closes
    have killKeeps := tcpKillTimewait_keeps closeKeeps.sound kills
    exact ⟨killKeeps.sound, killKeeps.pcbs.trans closeKeeps.pcbs⟩) made
  have lastAck := first.after (fun _ _ => tcpKillState_keeps) fromSecond
  have closing := lastAck.after (fun _ _ => tcpKillState_keeps) fromThird
  exact closing.after (fun _ _ => tcpKillPrio_keeps) fromFourth

/-! ### Listeners and stacks -/

/-- A refusal of `tcp_bind` or `tcp_listen` keeps the pcb. -/
theorem newListener_allocates
    {before : Process}
    {retries : Nat → Chances}
    {kill : Chances}
    {result : Except CreateErr Nat × Process}
    (sound : before.Sound)
    (done : before.newListener retries kill = .ok result) :
    result.2.Sound ∧
      match result.1 with
      | .error err =>
          (err = .buf ∨ err = .mem) ∧
            result.2.tcpPcbs + 1 = before.tcpPcbs
      | .ok _ => result.2.tcpPcbs = before.tcpPcbs := by
  obtain ⟨⟨tpcb, process⟩, taken, done⟩ := bind_returned done
  have allocated := tcpAlloc_allocates sound taken
  obtain ⟨⟨bound, process'⟩, binds, done⟩ := bind_returned done
  cases tpcb with
  | none =>
      cases binds
  | some addr =>
      have pcbs : process.tcpPcbs + 1 = before.tcpPcbs := allocated.pcbs
      have start : process.Sound := allocated.sound
      unfold tcpBind at binds
      simp only at binds
      split at binds
      · cases binds
        cases done
        exact ⟨start.congr rfl rfl rfl, .inl rfl, pcbs⟩
      · cases binds
        cases done
        unfold tcpListenWithBacklogAndErr
        split
        · exact ⟨start.congr rfl rfl rfl, .inr rfl, pcbs⟩
        · refine ⟨start.congr rfl rfl rfl, ?_⟩
          simp only [tcpPcbs, List.length_cons] at pcbs ⊢
          omega

theorem tcpListenClosed_sound
    {waits : Bool}
    {addr : Nat}
    {links after : List Link}
    (sound : ∀ link ∈ links, link.Sound waits)
    (done : tcpListenClosed addr links = .ok after) :
    ∀ link ∈ after, link.Sound waits := by
  refine forall_of_each (eventAtEach_each (fun link member conn taken => ?_) done)
  split at taken
  · have stepped :
        link.conn.step (Chances.label {} .dropListener) = .ok conn := taken
    exact (sound link member).shared (.inr rfl) stepped
  · cases taken
    exact sound link member

/-- What the drop of a listener does to the lists. -/
theorem dropListener_spec
    {before after : Process}
    {addr : Nat}
    (done : before.dropListener addr = .ok after) :
    ∃ activePcbs twPcbs,
      tcpListenClosed addr before.activePcbs = .ok activePcbs ∧
        tcpListenClosed addr before.twPcbs = .ok twPcbs ∧
        after = {
          before with
          activePcbs
          twPcbs
          listenPcbs :=
            before.listenPcbs.eraseP fun other => other.addr == addr
          listenPool := addr :: before.listenPool } := by
  obtain ⟨activePcbs, active, done⟩ := bind_returned done
  obtain ⟨twPcbs, timeWait, done⟩ := bind_returned done
  cases done
  exact ⟨activePcbs, twPcbs, active, timeWait, rfl⟩

theorem sound_dropListener
    {before after : Process}
    {addr : Nat}
    (sound : before.Sound)
    (done : before.dropListener addr = .ok after) :
    after.Sound := by
  obtain ⟨activePcbs, twPcbs, active, timeWait, rfl⟩ := dropListener_spec done
  exact ⟨tcpListenClosed_sound sound.active active,
    tcpListenClosed_sound sound.timeWait timeWait, sound.udp⟩

/-- A call of `NetStack::new` that returns: the listener may be refused, the
socket is not. -/
theorem newNetStack_cases
    {before after : Process}
    {stack : Nat}
    {retries : Nat → Chances}
    {kill : Chances}
    {answer : Option CreateErr}
    (sound : before.Sound)
    (done : before.newNetStack stack retries kill = .ok (answer, after)) :
    after.Sound ∧
      ∀ err,
        answer = some err →
          (err = .buf ∨ err = .mem) ∧
            after.outputCbPtr = 0 ∧ after.tcpPcbs + 1 = before.tcpPcbs := by
  obtain ⟨⟨listener, middle⟩, taken, done⟩ := bind_returned done
  have startSound :
      Sound {
        before with
        outputCbPtr := stack
        netStacks := stack :: before.netStacks } :=
    sound.congr rfl rfl rfl
  obtain ⟨middleSound, outcome⟩ := newListener_allocates startSound taken
  simp only at middleSound
  cases listener with
  | error refused =>
      obtain ⟨cause, pcbs⟩ := outcome
      cases done
      refine ⟨middleSound.congr rfl rfl rfl, fun err isErr => ?_⟩
      cases isErr
      exact ⟨cause, rfl, pcbs⟩
  | ok lpcb =>
      obtain ⟨⟨failed, udp⟩, created, done⟩ := bind_returned done
      obtain ⟨succeeds, udpSound⟩ := UdpTable.sound_new middleSound.udp created
      subst succeeds
      cases done
      exact ⟨⟨middleSound.active, middleSound.timeWait, udpSound⟩, nofun⟩

/-! ### Connections -/

theorem sound_activeAfter
    {process : Process}
    {link : Link}
    {label : Label}
    {conn : Conn}
    (sound : process.Sound)
    (member : link ∈ process.activePcbs)
    (taken : link.conn.step label = .ok conn) :
    (process.activeAfter link conn).Sound := by
  have others (other : Link)
      (left :
        other ∈ process.activePcbs.eraseP fun other =>
          other.addr == link.addr) :
      other.Sound false :=
    sound.active other (List.mem_of_mem_eraseP left)
  unfold activeAfter
  cases state : conn.pcb with
  | none => exact ⟨others, sound.timeWait, sound.udp⟩
  | some pcb =>
      simp only
      split
      · rename_i waiting
        have moved : Link.Sound true { link with conn } :=
          ⟨.next (sound.active link member).reached trivial taken,
            ⟨pcb, state, iff_of_true waiting rfl⟩⟩
        exact ⟨others, List.forall_mem_cons.mpr ⟨moved, sound.timeWait⟩,
          sound.udp⟩
      · rename_i notTimeWait
        have kept : Link.Sound false { link with conn } :=
          (sound.active link member).step taken
            ⟨pcb, state, iff_of_false notTimeWait nofun⟩
        exact ⟨forall_replaced sound.active kept link.addr, sound.timeWait,
          sound.udp⟩

theorem sound_twAfter
    {process : Process}
    {link : Link}
    {label : Label}
    {conn : Conn}
    (sound : process.Sound)
    (member : link ∈ process.twPcbs)
    (taken : link.conn.step label = .ok conn) :
    (process.twAfter link conn).Sound := by
  unfold twAfter
  cases state : conn.pcb with
  | none =>
      exact ⟨sound.active,
        fun other left => sound.timeWait other (List.mem_of_mem_eraseP left),
        sound.udp⟩
  | some next =>
      have linkSound := sound.timeWait link member
      obtain ⟨pcb, current, waiting⟩ := linkSound.state
      have waits : next.state = .timeWait :=
        Conn.step_timeWait linkSound.reached current (waiting.mpr rfl) taken
          state
      have kept : Link.Sound true { link with conn } :=
        linkSound.step taken ⟨next, state, iff_of_true waits rfl⟩
      exact ⟨sound.active,
        forall_replaced sound.timeWait kept link.addr, sound.udp⟩

theorem sound_atConnection
    {before after : Process}
    {addr : Nat}
    {label : Label}
    (sound : before.Sound)
    (done : before.atConnection addr label = .ok after) :
    after.Sound := by
  unfold atConnection at done
  split at done
  · rename_i link found
    obtain ⟨conn, taken, done⟩ := bind_returned done
    cases done
    exact sound_activeAfter sound (List.mem_of_find?_eq_some found) taken
  · split at done
    · rename_i link found
      obtain ⟨conn, taken, done⟩ := bind_returned done
      cases done
      exact sound_twAfter sound (List.mem_of_find?_eq_some found) taken
    · cases done
      exact sound

theorem sound_tcpSlowtmr
    {before after : Process}
    {chances : Nat → Chances}
    (sound : before.Sound)
    (done : before.tcpSlowtmr chances = .ok after) :
    after.Sound := by
  unfold tcpSlowtmr at done
  have ticked :
      Sound { before with tcpTicks := before.tcpTicks + 1 } :=
    sound.congr rfl rfl rfl
  generalize
    ({ before with tcpTicks := before.tcpTicks + 1 } : Process) = process
    at done ticked
  generalize before.activePcbs ++ before.twPcbs = links at done
  induction links generalizing process with
  | nil =>
      cases done
      exact ticked
  | cons link rest inductionHypothesis =>
      rw [List.foldlM_cons] at done
      obtain ⟨middle, taken, done⟩ := bind_returned done
      exact inductionHypothesis middle (sound_atConnection ticked taken) done

/-- A connection just after its SYN, on the active list. -/
theorem opened_sound
    {packet : InPacket}
    {listener addr : Nat}
    {iss : SeqNo}
    {world later : World}
    {pcb : TcpPcb}
    (opens : packet.opens = true)
    (sent : world.sent = [])
    (stream : world.stream = none)
    (opened :
      tcpListenInputSyn packet.toPacket (.listener listener) listener iss
          world =
        .ok (some pcb, later)) :
    Link.Sound false {
      addr := addr
      prio := tcpPrioNormal
      conn := {
        world := later
        pcb := some pcb
        history := { irs := packet.seqno, iss } } } := by
  simp only [InPacket.opens, Bool.and_eq_true, Bool.not_eq_true'] at opens
  have kept :=
    wp_returned
      ((inUseInvariant.rules ⟨iss, [], false⟩).tcpListenInputSyn_kept
        packet.toPacket listener iss world
        (inUseInvariant.opening _ _ _ _))
      opened
  refine ⟨.start ⟨packet, listener, iss, world, opens.1.1, opens.1.2, opens.2,
    sent, stream, opened, rfl, rfl⟩, ⟨pcb, rfl, ?_⟩⟩
  have state : pcb.state = .synRcvd := by
    rcases kept.frame.state with ⟨same, _⟩ | ⟨shut, _⟩
    · exact same
    · cases shut
  simp [state]

theorem sound_tcpListenInput
    {before after : Process}
    {listener : Nat}
    {packet : InPacket}
    {iss : SeqNo}
    {mtu6 : Mtu6}
    {chances retries : Nat → Chances}
    {kill : Chances}
    (opens : packet.opens = true)
    (sound : before.Sound)
    (done :
      before.tcpListenInput listener packet iss mtu6 chances retries kill =
        .ok after) :
    after.Sound := by
  obtain ⟨⟨npcb, process⟩, taken, done⟩ := bind_returned done
  have allocated : process.Sound := (tcpAlloc_allocates sound taken).sound
  cases npcb with
  | none =>
      cases done
      exact allocated
  | some addr =>
      obtain ⟨⟨pcb, later⟩, opened, done⟩ := bind_returned done
      cases pcb with
      | none =>
          cases done
          exact allocated.congr rfl rfl rfl
      | some pcb =>
          cases done
          exact ⟨List.forall_mem_cons.mpr
              ⟨opened_sound opens rfl rfl opened, allocated.active⟩,
            allocated.timeWait, allocated.udp⟩

theorem sound_step
    {before after : Process}
    {label : ProcessLabel}
    (sound : before.Sound)
    (taken : before.step label = .ok after) :
    after.Sound := by
  unfold step at taken
  cases event : label.event with
  | newNetStack stack =>
      simp only [event] at taken
      split at taken
      · cases taken
        exact sound
      · obtain ⟨⟨answer, process⟩, created, taken⟩ := bind_returned taken
        cases taken
        exact (newNetStack_cases sound created).1
  | dropNetStack stack =>
      simp only [event] at taken
      split at taken <;> cases taken
      · exact sound.congr rfl rfl rfl
      · exact sound
  | dropListener addr =>
      simp only [event] at taken
      split at taken
      · exact sound_dropListener sound taken
      · cases taken
        exact sound
  | udp event' =>
      simp only [event] at taken
      split at taken
      · cases taken
        exact sound
      · cases taken
        exact sound
      · rename_i udp _ stepped
        cases taken
        exact ⟨sound.active, sound.timeWait,
          UdpTable.sound_step sound.udp stepped⟩
  | listenInput listener packet iss mtu6 =>
      simp only [event] at taken
      split at taken
      · rename_i heard
        exact sound_tcpListenInput heard.1 sound taken
      · cases taken
        exact sound
  | slowtmr =>
      simp only [event] at taken
      exact sound_tcpSlowtmr sound taken
  | connection addr event' =>
      simp only [event] at taken
      split at taken
      · exact sound_atConnection sound taken
      · cases taken
        exact sound

theorem sound_reached
    {process : Process}
    (reached : processMachine.Reached process) :
    process.Sound := by
  refine Machine.ReachedUnder.invariant ?_ ?_ reached
  · intro first initial
    have fresh : first = _ := initial.fresh
    have udp := UdpTable.sound_initial initial.udp
    rw [fresh]
    exact ⟨by simp, by simp, udp⟩
  · intro before label after sound _ taken
    exact sound_step sound taken

end Process

end NetstackLwip
