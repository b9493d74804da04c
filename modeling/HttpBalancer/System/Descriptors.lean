import HttpBalancer.System.Syscalls

/-! Whose a descriptor is. It belongs to the thread that opened it until that thread closes it or puts it on
the table of connections, and a connection to the thread that looked it up until it re-arms or erases it. -/

namespace HttpBalancer.System

open Net Server Balancer Lib

inductive SocketPhase
  | created
  | bound
  | listening
  | connected
  | accepted
  | tabled
  | eventLoop
  deriving DecidableEq

/-- What has become of a descriptor; `rcvTimeo` and `sndTimeo` say that a timeout was asked for. -/
structure Handle where
  phase : SocketPhase
  nonBlocking : Bool := false
  rcvTimeo : Bool := false
  sndTimeo : Bool := false
  deriving DecidableEq

def Handle.Tabled (m : Handle) : Prop := m.phase = .tabled ∧ m.nonBlocking = true

def Syscall.on : Syscall → Option Fd
  | .setsockopt fd _ | .getFlags fd | .setFlags fd _ | .bind fd _ | .listen fd _ | .accept fd | .connect fd _
  | .send fd _ | .recv fd _ | .close fd | .add _ fd _ | .modify _ fd _ | .remove _ fd | .insert fd
  | .postRearm fd _ => some fd
  | _ => none

def Syscall.uses : Syscall → Option Fd
  | .add loop _ _ | .modify loop _ _ | .remove loop _ | .wait loop _ => loop
  | _ => none

/-- When a call makes sense. A thread waits on a socket only if it asked for a timeout before, and what
the reactor watches never blocks. -/
def Syscall.Fits (m : Handle) : Syscall → Prop
  | .bind _ _ | .connect _ _ => m.phase = .created
  | .listen _ _ => m.phase = .bound
  | .accept _ => m.phase = .listening ∧ m.nonBlocking = true
  | .send _ _ => m.phase = .connected ∧ m.sndTimeo = true ∨ m.Tabled
  | .recv _ _ => m.phase = .connected ∧ m.rcvTimeo = true ∨ m.Tabled
  | .insert _ => m.phase = .accepted ∧ m.nonBlocking = true
  | .add _ _ _ => (m.phase = .listening ∨ m.phase = .tabled) ∧ m.nonBlocking = true
  | .modify _ _ _ | .remove _ _ | .postRearm _ _ => m.Tabled
  | _ => True

def Syscall.act : (c : Syscall) → c.Result → Handle → Handle
  | .setsockopt _ .rcvTimeo, _, m => { m with rcvTimeo := true }
  | .setsockopt _ .sndTimeo, _, m => { m with sndTimeo := true }
  | .setFlags _ flags, true, m => { m with nonBlocking := flags.nonBlock }
  | .bind _ _, true, m => { m with phase := .bound }
  | .listen _ _, true, m => { m with phase := .listening }
  | .connect _ _, true, m => { m with phase := .connected }
  | .insert _, _, m => { m with phase := .tabled }
  | _, _, m => m

def Syscall.opens : (c : Syscall) → c.Result → Option (Fd × Handle)
  | .socket, some fd => some (fd, ⟨.created, false, false, false⟩)
  | .accept _, .fd fd => some (fd, ⟨.accepted, false, false, false⟩)
  | .createLoop, some fd => some (fd, ⟨.eventLoop, false, false, false⟩)
  | _, _ => none

def Syscall.takes : (c : Syscall) → c.Result → Option Fd
  | .count fd, true => some fd
  | .find fd, some _ => some fd
  | _, _ => none

-- the listening socket stays with the reactor when it is added to the loop
def Syscall.gives : Syscall → Handle → Bool
  | .add _ _ _, m => m.phase = .tabled
  | .modify _ _ _, _ | .postRearm _ _, _ => true
  | _, _ => false

def Syscall.closes : Syscall → Bool
  | .close _ => true
  | _ => false

def sockets : Protocol Syscall Syscall.Result Fd Handle where
  on := Syscall.on
  uses := Syscall.uses
  fits c m := c.Fits m
  serves m := m.phase = .eventLoop
  shelved := Handle.Tabled
  closes := Syscall.closes
  gives := Syscall.gives
  act := Syscall.act
  opens := Syscall.opens
  takes := Syscall.takes
  gives_open c m h := by cases c <;> first | rfl | cases h

abbrev Held := Fd → Option Handle

def nothing : Held := fun _ => none

def only (fd : Fd) (m : Handle) : Held := Function.update nothing fd (some m)

def Serving (l : Fd) (loop : Option Fd) (own : Held) : Prop :=
  (∃ m, own l = some m ∧ m.phase = .listening ∧ m.nonBlocking = true) ∧
    (∀ q, loop = some q → ∃ m, own q = some m ∧ m.phase = .eventLoop) ∧
      ∀ fd, own fd ≠ none → fd = l ∨ loop = some fd

def Attending (client : Option Client) (own : Held) : Prop :=
  match client with
  | none => own = nothing
  | some c => ∃ m : Handle, own = only c.fd m ∧ m.Tabled

def Upstreaming (base : Held) (fd : Fd) (own : Held) : Prop :=
  base fd = none ∧ ∃ m : Handle, own = Function.update base fd (some m) ∧ m.phase = .connected ∧
    m.rcvTimeo = true ∧ m.sndTimeo = true

inductive Thread
  | reactor
  | checker
  | worker (i : ℕ)
  deriving DecidableEq

def Thread.idle : Thread → Held → Prop
  | .reactor, own => own = nothing ∨ ∃ l loop, Serving l loop own
  | .checker, own | .worker _, own => own = nothing

/-- What a thread may start while it is idle. -/
inductive Thread.Entry (own : Held) : Thread → Code → Prop
  | run (port : UInt16) : own = nothing → Entry own .reactor (Code.run port)
  | probe (u : Upstream) : Entry own .checker (Code.probeOnce u)
  | connection (i : ℕ) (router : Router) (fd : Fd) :
      Entry own (.worker i) (Code.handleConnectionEvent router fd)
  | client (i : ℕ) (pick : Option Upstream) (fd : Fd) : Entry own (.worker i) (Code.handleClientEvent pick fd)

def Thread.At : Thread → Point → Held → Prop
  | .reactor, .polling l loop, own | .reactor, .accepting l loop _, own => Serving l loop own
  | .checker, .probing fd _, own => Upstreaming nothing fd own
  | .worker _, .receiving client fd _ _, own => ∃ base, Attending client base ∧ Upstreaming base fd own
  | _, _, _ => False

def Syscall.plain : Syscall → Bool
  | .socket | .accept _ | .createLoop | .close _ | .count _ | .find _ => false
  | _ => true

namespace Code

variable {I : Point → Held → Prop} {Q : Outcome → Held → Prop} {own base : Held} {fd : Fd} {m : Handle}

lemma plain {c : Syscall} (h : c.plain = true) : sockets.Plain c := by
  cases c <;> first | exact ⟨rfl, fun _ => rfl, fun _ => rfl⟩ | cases h

lemma unused {c : Syscall} (h : c.uses = none) : sockets.Used own c := by
  intro q hq
  rw [show sockets.uses c = none from h] at hq
  cases hq

lemma restore (h : base fd = none) : Function.update (Function.update base fd (some m)) fd none = base := by
  rw [Function.update_idem, ← h, Function.update_eq_self]

lemma wp_set {c : Syscall} {k : c.Result → Code} (hc : c.plain = true) (hu : c.uses = none)
    (hon : c.on = some fd) (hg : c.gives m = false) (hf : c.Fits m)
    (hk : ∀ r, (k r).wp sockets.contract I Q (Function.update base fd (some (c.act r m)))) :
    (.call c k : Code).wp sockets.contract I Q (Function.update base fd (some m)) := by
  refine Protocol.wp_keep (plain hc) (unused hu) hon (Function.update_self ..) hg hf fun r => ?_
  rw [Function.update_idem]
  exact hk r

lemma wp_timeouts {k : Code}
    (hk : k.wp sockets.contract I Q
      (Function.update base fd (some { m with rcvTimeo := true, sndTimeo := true }))) :
    (.call (.setsockopt fd .rcvTimeo) fun _ => .call (.setsockopt fd .sndTimeo) fun _ => k : Code).wp
      sockets.contract I Q (Function.update base fd (some m)) :=
  wp_set rfl rfl rfl rfl trivial fun _ => wp_set rfl rfl rfl rfl trivial fun _ => hk

lemma wp_setNonBlocking {k : Bool → Code} (hm : own fd = some m) (hf : (k false).wp sockets.contract I Q own)
    (ht : (k true).wp sockets.contract I Q (Function.update own fd (some { m with nonBlocking := true }))) :
    (setNonBlocking fd k).wp sockets.contract I Q own := by
  refine Protocol.wp_same (plain rfl) (unused rfl) rfl hm rfl trivial
    (fun _ => rfl) fun flags => ?_
  cases flags with
  | none => exact hf
  | some flags =>
    refine Protocol.wp_keep (plain rfl) (unused rfl) rfl hm rfl trivial fun ok => ?_
    cases ok with
    | false =>
      have hsame : Function.update own fd (some m) = own := by rw [← hm, Function.update_eq_self]
      exact hsame.symm ▸ hf
    | true => exact ht

lemma wp_close {k : Code} (h : base fd = none) (hk : k.wp sockets.contract I Q base) :
    (.call (.close fd) fun _ => k : Code).wp sockets.contract I Q (Function.update base fd (some m)) := by
  refine Protocol.wp_close rfl (fun _ => rfl) (fun _ => rfl) (unused rfl) rfl (Function.update_self ..) trivial
    fun _ => ?_
  rw [restore h]
  exact hk

lemma wp_socket {k : Option Fd → Code} (hn : (k none).wp sockets.contract I Q own)
    (hk : ∀ fd, own fd = none →
      (k (some fd)).wp sockets.contract I Q (Function.update own fd (some ⟨.created, false, false, false⟩))) :
    (.call .socket k : Code).wp sockets.contract I Q own := by
  refine Protocol.wp_open (unused rfl) (fun h hh => by cases hh) rfl (fun _ => rfl) (fun _ _ => rfl)
    (fun _ => rfl) (fun r hr => ?_) fun r fd m hr hfree => ?_
  · cases r with
    | none => exact hn
    | some fd => cases hr
  · cases r with
    | none => cases hr
    | some fd =>
      cases hr
      exact hk fd hfree

lemma wp_createListenSocket (port : UInt16) (backlog : ℕ) {k : Option Fd → Code}
    (hn : (k none).wp sockets.contract I Q own)
    (hl : ∀ fd m, own fd = none → m.phase = .listening → m.nonBlocking = true →
      (k (some fd)).wp sockets.contract I Q (Function.update own fd (some m))) :
    (createListenSocket port backlog k).wp sockets.contract I Q own := by
  refine wp_socket hn fun fd hfree => ?_
  refine Protocol.wp_same (plain rfl) (unused rfl) rfl (Function.update_self ..) rfl trivial (fun _ => rfl)
    fun _ => ?_
  refine wp_setNonBlocking (Function.update_self ..) (wp_close hfree hn) ?_
  rw [Function.update_idem]
  refine wp_set rfl rfl rfl rfl rfl fun ok => ?_
  cases ok with
  | false => exact wp_close hfree hn
  | true =>
    refine wp_set rfl rfl rfl rfl rfl fun ok => ?_
    cases ok with
    | false => exact wp_close hfree hn
    | true => exact hl fd _ hfree rfl rfl

section Reactor

variable {l : Fd} {loop : Option Fd}

lemma Serving.uses (h : Serving l loop own) (hfree : own fd = none) {c : Syscall} (hc : c.uses = loop) :
    sockets.Used (Function.update own fd (some m)) c := by
  intro q hq
  obtain ⟨mq, hmq, hp⟩ := h.2.1 q (hc.symm.trans hq)
  have hne : q ≠ fd := by
    rintro rfl
    rw [hfree] at hmq
    cases hmq
  exact ⟨mq, (Function.update_of_ne hne _ _).trans hmq, hp⟩

lemma wp_erase {k : Code} (h : Serving l loop own) (hfree : own fd = none) (ht : m.Tabled)
    (hk : k.wp sockets.contract I Q own) :
    (erase loop fd k).wp sockets.contract I Q (Function.update own fd (some m)) :=
  Protocol.wp_same (plain rfl) (Serving.uses h hfree rfl) rfl (Function.update_self ..) rfl ht (fun _ => rfl)
    fun _ => wp_close hfree hk

lemma wp_modify {k : Bool → Code} (h : Serving l loop own) (hfree : own fd = none) (ht : m.Tabled)
    (mask : UInt8) (hk : ∀ ok, (k ok).wp sockets.contract I Q own) :
    (.call (.modify loop fd mask) k : Code).wp sockets.contract I Q (Function.update own fd (some m)) := by
  refine Protocol.wp_give (plain rfl) (Serving.uses h hfree rfl) rfl (Function.update_self ..) rfl ht
    (fun _ => ht) fun ok => ?_
  rw [restore hfree]
  exact hk ok

lemma wp_count {k : Bool → Code} (hn : (k false).wp sockets.contract I Q own)
    (hk : ∀ m : Handle, own fd = none → m.Tabled →
      (k true).wp sockets.contract I Q (Function.update own fd (some m))) :
    (.call (.count fd) k : Code).wp sockets.contract I Q own := by
  refine Protocol.wp_take (unused rfl) rfl (fun _ => rfl) (fun r hr => ?_) fun r fd m hr hfree ht => ?_
  · cases r with
    | false => exact hn
    | true => cases hr
  · cases r with
    | false => cases hr
    | true =>
      cases hr
      exact hk m hfree ht

lemma wp_applyPendingRearms {k : Code} (h : Serving l loop own) (hk : k.wp sockets.contract I Q own)
    (rearms : List (Fd × RearmAction)) :
    (applyPendingRearms loop k rearms).wp sockets.contract I Q own := by
  induction rearms with
  | nil => exact hk
  | cons r rearms ih =>
    refine wp_count ih fun m hfree ht => ?_
    obtain ⟨fd, action⟩ := r
    cases action with
    | waitReadable | waitWritable => exact wp_modify h hfree ht _ fun _ => ih
    | close => exact wp_erase h hfree ht ih

lemma wp_dispatch (h : Serving l loop own) (hp : I (.polling l loop) own)
    (ha : ∀ events, I (.accepting l loop events) own) (events : List IoEvent) :
    (dispatch l loop events).wp sockets.contract I Q own := by
  induction events with
  | nil => exact hp
  | cons ev events ih =>
    rw [dispatch]
    split_ifs
    · exact ha events
    · exact wp_count ih fun m hfree ht => wp_erase h hfree ht ih
    · refine wp_count ih fun m hfree ht => wp_modify h hfree ht _ fun _ => ?_
      exact Protocol.wp_free (plain rfl) (unused rfl) rfl fun _ => ih

lemma wp_reactorLoop (h : Serving l loop own) (hq : Q .stopped own) (hp : I (.polling l loop) own)
    (ha : ∀ events, I (.accepting l loop events) own) :
    (reactorLoop l loop).wp sockets.contract I Q own := by
  refine Protocol.wp_free (plain rfl) (unused rfl) rfl fun running => ?_
  cases running with
  | false => exact hq
  | true =>
    refine Protocol.wp_free (plain rfl) (unused rfl) rfl fun rearms => ?_
    refine wp_applyPendingRearms h ?_ rearms
    exact Protocol.wp_free (plain rfl) h.2.1 rfl fun events => wp_dispatch h hp ha events

lemma wp_handleAccept (h : Serving l loop own) (hp : I (.polling l loop) own)
    (ha : ∀ events, I (.accepting l loop events) own) (events : List IoEvent) :
    (handleAccept l loop events).wp sockets.contract I Q own := by
  have hd := wp_dispatch (Q := Q) h hp ha events
  obtain ⟨ml, hl, hphase, hb⟩ := h.1
  refine Protocol.wp_open (unused rfl) (fun fd hh => ?_) rfl (fun _ => rfl) (fun _ _ => rfl) (fun _ => rfl)
    (fun r hr => ?_) fun r fd m hr hfree => ?_
  · obtain rfl := Option.some.inj hh
    exact ⟨ml, hl, hphase, hb⟩
  · cases r with
    | again | failed => exact hd
    | fd fd => cases hr
  · cases r with
    | again | failed => cases hr
    | fd fd' =>
      obtain ⟨rfl, rfl⟩ : fd' = fd ∧ _ = m := by simpa [sockets, Syscall.opens] using hr
      refine wp_setNonBlocking (Function.update_self ..) (wp_close hfree hd) ?_
      rw [Function.update_idem]
      refine Protocol.wp_same (plain rfl) (unused rfl) rfl (Function.update_self ..) rfl trivial (fun _ => rfl)
        fun _ => ?_
      refine wp_set rfl rfl rfl rfl ⟨rfl, rfl⟩ fun _ => ?_
      refine Protocol.wp_give (plain rfl) (Serving.uses h hfree rfl) rfl (Function.update_self ..) rfl
        ⟨Or.inr rfl, rfl⟩ (fun _ => ⟨rfl, rfl⟩) fun _ => ?_
      rw [restore hfree]
      exact ha events

lemma wp_run (port : UInt16) (hq : Q .stopped nothing)
    (hp : ∀ l loop own, Serving l loop own → I (.polling l loop) own) :
    (run port).wp sockets.contract I Q nothing := by
  refine wp_createListenSocket port 1024 hq fun l m _ hphase hb => ?_
  have hadd : ∀ (loop : Option Fd) (own : Held), Serving l loop own → own l = some m →
      (.call (.add loop l EventType.readable) fun _ => .jump (.polling l loop) : Code).wp
        sockets.contract I Q own := by
    intro loop own h hm
    refine Protocol.wp_same (plain rfl) h.2.1 rfl hm ?_ ⟨Or.inl hphase, hb⟩ (fun _ => rfl)
      fun _ => hp l loop _ h
    simp [sockets, Syscall.gives, hphase]
  have hself : Function.update nothing l (some m) l = some m := Function.update_self ..
  refine Protocol.wp_open (unused rfl) (fun h hh => by cases hh) rfl (fun _ => rfl) (fun _ _ => rfl)
    (fun _ => rfl) (fun r hr => ?_) fun r q mq hr hfree => ?_
  · cases r with
    | some q => cases hr
    | none =>
      refine hadd none _ ⟨⟨m, hself, hphase, hb⟩, nofun, fun fd hfd => ?_⟩ hself
      by_contra hne
      exact hfd (Function.update_of_ne (fun he => hne (Or.inl he)) _ _)
  · cases r with
    | none => cases hr
    | some q' =>
      obtain ⟨rfl, rfl⟩ : q' = q ∧ _ = mq := by simpa [sockets, Syscall.opens] using hr
      have hne : l ≠ q' := by
        rintro rfl
        rw [hself] at hfree
        cases hfree
      have hl : ∀ x, Function.update (Function.update nothing l (some m)) q' x l = some m :=
        fun x => (Function.update_of_ne hne x _).trans hself
      refine hadd (some q') _ ⟨⟨m, hl _, hphase, hb⟩, fun q hq => ?_, fun fd hfd => ?_⟩ (hl _)
      · obtain rfl := Option.some.inj hq
        exact ⟨_, Function.update_self .., rfl⟩
      · by_contra hno
        rw [not_or] at hno
        rw [Function.update_of_ne fun he => hno.2 (congrArg some he.symm), Function.update_of_ne hno.1] at hfd
        exact hfd rfl

end Reactor

section Worker

lemma wp_postRearm {conn : Connection} {action : RearmAction} (hfree : base fd = none) (ht : m.Tabled)
    (hq : ∀ left, Q (.handled left) base) :
    (postRearm fd conn action).wp sockets.contract I Q (Function.update base fd (some m)) := by
  refine Protocol.wp_give (plain rfl) (unused rfl) rfl (Function.update_self ..) rfl ht (fun _ => ht)
    fun _ => ?_
  rw [restore hfree]
  exact hq _

lemma wp_flushWrite {k : Bool → Connection → Code} (hm : own fd = some m) (ht : m.Tabled)
    (hk : ∀ flushed conn, (k flushed conn).wp sockets.contract I Q own) (conn : Connection) :
    (flushWrite fd k conn).wp sockets.contract I Q own := by
  induction conn using flushWrite.induct with
  | case1 conn hp ih =>
    rw [flushWrite, if_pos hp]
    refine Protocol.wp_same (plain rfl) (unused rfl) rfl hm rfl (Or.inr ht) (fun _ => rfl) fun r => ?_
    cases r with
    | again | failed => exact hk _ _
    | sent n =>
      cases n with
      | zero => exact hk _ _
      | succ n => exact ih n
  | case2 conn hp =>
    rw [flushWrite, if_neg hp]
    exact hk _ _

lemma wp_finish {rearm : Connection → RearmAction} (hfree : base fd = none) (ht : m.Tabled)
    (hq : ∀ left, Q (.handled left) base) (conn : Connection) :
    (finish rearm fd conn).wp sockets.contract I Q (Function.update base fd (some m)) := by
  refine wp_flushWrite (Function.update_self ..) ht (fun flushed conn => ?_) conn
  cases flushed <;> exact wp_postRearm hfree ht hq

lemma wp_handleEvent {complete : Client → Code} (hq : ∀ left, Q (.handled left) nothing)
    (hc : ∀ conn m, m.Tabled → (complete ⟨fd, conn⟩).wp sockets.contract I Q (only fd m)) :
    (handleEvent complete fd).wp sockets.contract I Q nothing := by
  refine Protocol.wp_take (unused rfl) rfl (fun _ => rfl) (fun r hr => ?_) fun r fd' m hr hfree ht => ?_
  · cases r with
    | none => exact hq none
    | some conn => cases hr
  · cases r with
    | none => cases hr
    | some conn =>
      cases hr
      have hpost : ∀ conn action, (postRearm fd conn action).wp sockets.contract I Q (only fd m) :=
        fun conn action => wp_postRearm hfree ht hq
      dsimp only
      split_ifs
      · exact wp_finish hfree ht hq conn
      · refine Protocol.wp_same (plain rfl) (unused rfl) rfl (Function.update_self ..) rfl (Or.inr ht)
          (fun _ => rfl) fun r => ?_
        cases r with
        | again | failed => exact hpost _ _
        | received data =>
          cases data with
          | nil => exact hpost _ _
          | cons b bs =>
            dsimp only
            cases (conn.parser.consume (b :: bs)).2 with
            | needMoreData => exact hpost _ _
            | error => exact wp_flushWrite (Function.update_self ..) ht (fun _ conn => hpost _ _) _
            | complete => exact hc _ m ht

lemma wp_sendAll {k : Bool → Code} (hm : own fd = some m) (hp : m.phase = .connected) (ht : m.sndTimeo = true)
    (hk : ∀ ok, (k ok).wp sockets.contract I Q own) (data : Bytes) :
    (sendAll fd k data).wp sockets.contract I Q own := by
  induction data using sendAll.induct with
  | case1 =>
    rw [sendAll]
    exact hk true
  | case2 b bs ih =>
    rw [sendAll]
    refine Protocol.wp_same (plain rfl) (unused rfl) rfl hm rfl (Or.inl ⟨hp, ht⟩) (fun _ => rfl) fun r => ?_
    cases r with
    | again | failed => exact hk false
    | sent n =>
      cases n with
      | zero => exact hk false
      | succ n => exact ih n

variable {client : Option Client}

lemma wp_relay (hfree : base fd = none) (hk : ∀ a, (answered client a).wp sockets.contract I Q base)
    (req : HttpRequest) (resp : Option HttpResponse) :
    (relay client fd req resp).wp sockets.contract I Q (Function.update base fd (some m)) := by
  refine wp_close hfree ?_
  cases resp <;> exact hk _

lemma wp_awaiting {again : HttpResponseParser → Point} {k : Option HttpResponse → Code}
    (h : Upstreaming base fd own) (size : ℕ) (parser : HttpResponseParser)
    (hk : ∀ m resp, (k resp).wp sockets.contract I Q (Function.update base fd (some m)))
    (hi : ∀ parser own, Upstreaming base fd own → I (again parser) own) :
    (awaiting fd size again k parser).wp sockets.contract I Q own := by
  obtain ⟨-, m, rfl, hp, hr, hs⟩ := id h
  refine Protocol.wp_same (plain rfl) (unused rfl) rfl (Function.update_self ..) rfl (Or.inl ⟨hp, hr⟩)
    (fun _ => rfl) fun r => ?_
  cases r with
  | again | failed => exact hk m none
  | received data =>
    cases data with
    | nil => exact hk m none
    | cons b bs =>
      dsimp only
      cases (parser.consume (b :: bs)).2 with
      | complete => exact hk m _
      | error => exact hk m none
      | needMoreData => exact hi _ _ h

lemma wp_receiving (h : Upstreaming base fd own) (parser : HttpResponseParser) (req : HttpRequest)
    (hk : ∀ a, (answered client a).wp sockets.contract I Q base)
    (hi : ∀ parser own, Upstreaming base fd own → I (.receiving client fd parser req) own) :
    (receiving client fd parser req).wp sockets.contract I Q own := by
  rw [receiving_eq]
  exact wp_awaiting h _ parser (fun _ resp => wp_relay h.1 hk req resp) hi

lemma wp_proxyRequest (pick : Option Upstream) (req : HttpRequest)
    (hk : ∀ a, (answered client a).wp sockets.contract I Q base)
    (hi : ∀ fd parser own, Upstreaming base fd own → I (.receiving client fd parser req) own) :
    (proxyRequest client pick req).wp sockets.contract I Q base := by
  cases pick with
  | none => exact hk _
  | some upstream =>
    refine wp_socket (hk _) fun fd hfree => ?_
    refine wp_timeouts ?_
    refine Protocol.wp_free (plain rfl) (unused rfl) rfl fun _ => ?_
    refine wp_set rfl rfl rfl rfl rfl fun connected => ?_
    cases connected with
    | false => exact wp_relay hfree hk req none
    | true =>
      refine wp_sendAll (Function.update_self ..) rfl rfl (fun sent => ?_) _
      cases sent with
      | false => exact wp_relay hfree hk req none
      | true => exact hi _ _ _ ⟨hfree, _, rfl, rfl, rfl, rfl⟩

lemma wp_answered (h : Attending client base) (hq : ∀ left, Q (.handled left) nothing)
    (hp : ∀ a, Q (.proxied a) nothing) (a : Answer × Bool) :
    (answered client a).wp sockets.contract I Q base := by
  cases client with
  | none =>
    obtain rfl : base = nothing := h
    exact hp a
  | some c =>
    obtain ⟨m, rfl, ht⟩ := h
    exact wp_finish rfl ht hq _

end Worker

section Checker

lemma wp_probed (hfree : base fd = none) (hq : ∀ ok, Q (.probed ok) base) (ok : Bool) :
    (probed fd ok).wp sockets.contract I Q (Function.update base fd (some m)) :=
  wp_close hfree (hq ok)

lemma wp_probing (h : Upstreaming base fd own) (parser : HttpResponseParser) (hq : ∀ ok, Q (.probed ok) base)
    (hi : ∀ parser own, Upstreaming base fd own → I (.probing fd parser) own) :
    (probing fd parser).wp sockets.contract I Q own := by
  rw [probing_eq]
  refine wp_awaiting h _ parser (fun m resp => ?_) hi
  cases resp <;> exact wp_probed h.1 hq _

lemma wp_probeOnce (u : Upstream) (hq : ∀ ok, Q (.probed ok) base)
    (hi : ∀ fd parser own, Upstreaming base fd own → I (.probing fd parser) own) :
    (probeOnce u).wp sockets.contract I Q base := by
  refine wp_socket (hq _) fun fd hfree => ?_
  refine wp_timeouts ?_
  refine Protocol.wp_free (plain rfl) (unused rfl) rfl fun ok => ?_
  cases ok with
  | false => exact wp_probed hfree hq false
  | true =>
    refine wp_set rfl rfl rfl rfl rfl fun connected => ?_
    cases connected with
    | false => exact wp_probed hfree hq false
    | true =>
      refine Protocol.wp_same (plain rfl) (unused rfl) rfl (Function.update_self ..) rfl (Or.inl ⟨rfl, rfl⟩)
        (fun _ => rfl) fun r => ?_
      cases r with
      | again | failed => exact wp_probed hfree hq false
      | sent n => exact hi _ _ _ ⟨hfree, _, rfl, rfl, rfl, rfl⟩

end Checker

end Code

lemma Thread.entry_wp {i : Thread} {own : Held} {b : Code} (hi : i.idle own) (hb : Entry own i b) :
    b.wp sockets.contract i.At (fun _ => i.idle) own := by
  cases hb with
  | run port hn =>
    subst hn
    exact Code.wp_run port (Or.inl rfl) fun _ _ _ hs => hs
  | probe u =>
    obtain rfl : own = nothing := hi
    exact Code.wp_probeOnce u (fun _ => rfl) fun _ _ _ h => h
  | connection i router fd =>
    obtain rfl : own = nothing := hi
    exact Code.wp_handleEvent (fun _ => rfl) fun conn m ht => Code.wp_finish rfl ht (fun _ => rfl) _
  | client i pick fd =>
    obtain rfl : own = nothing := hi
    refine Code.wp_handleEvent (fun _ => rfl) fun conn m ht => ?_
    have ha : Attending (some ⟨fd, conn⟩) (only fd m) := ⟨m, rfl, ht⟩
    exact Code.wp_proxyRequest pick _ (Code.wp_answered ha (fun _ => rfl) fun _ => rfl)
      fun _ _ _ h => ⟨_, ha, h⟩

lemma Thread.upholds (i : Thread) : Block.Upholds sockets.contract code i.At fun _ => i.idle := by
  intro l own h
  cases i with
  | reactor =>
    cases l with
    | polling l loop => exact Code.wp_reactorLoop h (Or.inr ⟨l, loop, h⟩) h fun _ => h
    | accepting l loop events => exact Code.wp_handleAccept h h (fun _ => h) events
    | receiving | probing => exact h.elim
  | checker =>
    cases l with
    | probing fd parser => exact Code.wp_probing h parser (fun _ => rfl) fun _ _ h => h
    | polling | accepting | receiving => exact h.elim
  | worker i =>
    cases l with
    | receiving client fd parser req =>
      obtain ⟨base, ha, hu⟩ := h
      exact Code.wp_receiving hu parser req (Code.wp_answered ha (fun _ => rfl) fun _ => rfl)
        fun _ _ hu => ⟨base, ha, hu⟩
    | polling | accepting | probing => exact h.elim

abbrev Threads := Crew Syscall Syscall.Result Fd Handle Point Outcome Thread

namespace Threads

def initial : Threads := ⟨fun _ => false, fun _ => none, fun _ => nothing⟩

def step : Threads → Crew.Label Syscall Syscall.Result Point Outcome Thread → Option Threads :=
  Crew.step sockets code

def Possible : Threads → Crew.Label Syscall Syscall.Result Point Outcome Thread → Prop :=
  Crew.Possible sockets fun i own b => Thread.Entry own i b

lemma sound {s : Threads} (h : Transitions.Reachable step Possible initial s) :
    Crew.Sound sockets Thread.At Thread.idle s := by
  refine h.invariant (P := Crew.Sound sockets Thread.At Thread.idle) ?_ fun s l t hs hl ht =>
    Crew.Sound.step Thread.upholds (fun i own b => Thread.entry_wp) hs hl ht
  refine ⟨fun fd => .shut, nofun, nofun, fun i _ => ?_⟩
  cases i with
  | reactor => exact Or.inl rfl
  | checker | worker => rfl

/-- The shelf is the table of connections no thread has looked up. -/
theorem descriptors_accounted (s : Threads) (h : Transitions.Reachable step Possible initial s) :
    (∀ fd, s.opened fd = true ↔ ∃! o, s.own o fd ≠ none) ∧
    (∀ i c k, s.running i = some (.call c k) →
      (∀ fd, c.on = some fd → s.opened fd = true ∧ ∃ m, s.own (some i) fd = some m ∧ c.Fits m) ∧
      ∀ q, c.uses = some q → s.opened q = true ∧ ∃ m, s.own (some i) q = some m ∧ m.phase = .eventLoop) ∧
    (∀ fd m, s.own none fd = some m → m.Tabled) ∧
    (∀ i, s.running i = none → i.idle (s.own (some i))) ∧
    ∀ l loop, s.running .reactor = some (.jump (.polling l loop)) → Serving l loop (s.own (some .reactor)) ∧
      ((∀ i, i ≠ .reactor → s.running i = none) →
        ∀ fd, s.opened fd = true ↔ fd = l ∨ loop = some fd ∨ s.own none fd ≠ none) := by
  have hs := sound h
  have hopen : ∀ o fd m, s.own o fd = some m → s.opened fd = true :=
    fun o fd m hm => ((hs.placed fd).unique hm).1
  refine ⟨fun fd => (hs.placed fd).iff, fun i c k hi => ⟨fun fd hon => ?_, fun q hq => ?_⟩, hs.shelved, hs.rest,
    fun l loop hl => ?_⟩
  · obtain ⟨m, hm, hf, -⟩ := (hs.safe i _ hi).1.1 fd hon
    exact ⟨hopen _ fd m hm, m, hm, hf⟩
  · obtain ⟨m, hm, hf⟩ := (hs.safe i _ hi).1.2 q hq
    exact ⟨hopen _ q m hm, m, hm, hf⟩
  · have hserve : Serving l loop (s.own (some .reactor)) := hs.safe .reactor _ hl
    refine ⟨hserve, fun hidle fd => ?_⟩
    constructor
    · intro hfd
      obtain ⟨o, ho, -⟩ := (hs.placed fd).iff.mp hfd
      cases o with
      | none => exact Or.inr (Or.inr ho)
      | some i =>
        by_cases hi : i = .reactor
        · subst hi
          exact (hserve.2.2 fd ho).imp id Or.inl
        · have hn := hs.rest i (hidle i hi)
          cases i with
          | reactor => exact absurd rfl hi
          | checker | worker => exact absurd (congrFun hn fd) ho
    · rintro (rfl | hloop | ho)
      · obtain ⟨m, hm, -⟩ := hserve.1
        exact hopen _ fd m hm
      · obtain ⟨m, hm, -⟩ := hserve.2.1 fd hloop
        exact hopen _ fd m hm
      · obtain ⟨m, hm⟩ := Option.ne_none_iff_exists'.mp ho
        exact hopen none fd m hm

def granting (fd : Fd) : ∀ c : Syscall, c.Result
  | .socket | .createLoop => some fd
  | .getFlags _ => some ⟨false, 2⟩
  | .accept _ => .fd fd
  | .send _ data => .sent data.length
  | .recv _ _ => .received []
  | .find _ => some Connection.fresh
  | .wait _ _ => [⟨fd, EventType.readable, false⟩]
  | .swapRearms => []
  | .close _ | .insert _ | .postRearm _ _ | .enqueue _ => ()
  | .setsockopt _ _ | .setFlags _ _ | .inetPton _ | .bind _ _ | .listen _ _ | .connect _ _
  | .add _ _ _ | .modify _ _ _ | .remove _ _ | .running | .count _ => true

lemma granted {s : Threads} {i : Thread} {f : ∀ c : Syscall, c.Result} {c : Syscall} {k : c.Result → Code}
    (hi : s.running i = some (.call c k)) (ho : (c.opens (f c)).all (fun e => !s.opened e.1) = true)
    (ht : (c.takes (f c)).all (fun fd => (s.own none fd).isSome) = true) : Possible s (.answer i f) := by
  intro c' k' hi'
  obtain ⟨rfl, -⟩ : c = c' ∧ HEq k k' := by simpa using hi.symm.trans hi'
  refine ⟨fun fd m h => ?_, fun fd h => ?_⟩
  · rw [show c.opens (f c) = some (fd, m) from h] at ho
    simpa using ho
  · rw [show c.takes (f c) = some fd from h] at ht
    simpa [Option.isSome_iff_ne_none] using ht

theorem descriptors_accounted_three_threads :
    ∃ s : Threads, Transitions.Reachable step Possible initial s ∧
      (∃ k, s.running (.worker 0) = some (.call (.recv 7 8192) k)) ∧ s.own (some (.worker 0)) 7 ≠ none ∧
      s.own (some .reactor) 4 ≠ none ∧ s.own (some .checker) 9 ≠ none ∧ s.opened 7 = true ∧
      ∃! o, s.own o 7 ≠ none := by
  have h : Transitions.Reachable step Possible initial _ := Transitions.Reachable.init
    |>.step (.start .reactor (Code.run 8080)) (Thread.Entry.run 8080 rfl) rfl
    |>.step (.answer .reactor (granting 3)) (granted rfl rfl rfl) rfl
    |>.step (.answer .reactor (granting 3)) (granted rfl rfl rfl) rfl
    |>.step (.answer .reactor (granting 3)) (granted rfl rfl rfl) rfl
    |>.step (.answer .reactor (granting 3)) (granted rfl rfl rfl) rfl
    |>.step (.answer .reactor (granting 3)) (granted rfl rfl rfl) rfl
    |>.step (.answer .reactor (granting 3)) (granted rfl rfl rfl) rfl
    |>.step (.answer .reactor (granting 4)) (granted rfl rfl rfl) rfl
    |>.step (.answer .reactor (granting 3)) (granted rfl rfl rfl) rfl
    |>.step (.jump .reactor) trivial rfl
    |>.step (.answer .reactor (granting 3)) (granted rfl rfl rfl) rfl
    |>.step (.answer .reactor (granting 3)) (granted rfl rfl rfl) rfl
    |>.step (.answer .reactor (granting 3)) (granted rfl rfl rfl) rfl
    |>.step (.jump .reactor) trivial rfl
    |>.step (.answer .reactor (granting 7)) (granted rfl rfl rfl) rfl
    |>.step (.answer .reactor (granting 7)) (granted rfl rfl rfl) rfl
    |>.step (.answer .reactor (granting 7)) (granted rfl rfl rfl) rfl
    |>.step (.answer .reactor (granting 7)) (granted rfl rfl rfl) rfl
    |>.step (.answer .reactor (granting 7)) (granted rfl rfl rfl) rfl
    |>.step (.answer .reactor (granting 7)) (granted rfl rfl rfl) rfl
    |>.step (.start (.worker 0) (Code.handleConnectionEvent (routes 8080) 7)) (Thread.Entry.connection ..) rfl
    |>.step (.answer (.worker 0) (granting 7)) (granted rfl rfl rfl) rfl
    |>.step (.start .checker (Code.probeOnce ⟨lit "127.0.0.1", 9001⟩)) (Thread.Entry.probe _) rfl
    |>.step (.answer .checker (granting 9)) (granted rfl rfl rfl) rfl
  exact ⟨_, h, ⟨_, rfl⟩, Option.some_ne_none _, Option.some_ne_none _, Option.some_ne_none _, rfl,
    ((descriptors_accounted _ h).1 7).mp rfl⟩

end Threads

end HttpBalancer.System
