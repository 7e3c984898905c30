import MasterAI.SocketTable

namespace MasterAI

/-- A descriptor: its socket, the connection behind it and the notifications that wait for its thread. -/
structure Descriptor where
  socket : ConnSocket
  conn : Option Nat
  pending : List NotifyFd

/-- What holds of a descriptor between two steps. While a new connection waits for its thread the socket is unused, and
a failed message asks for its own connection to be closed, or a new connection waits behind the request. -/
structure Descriptor.Sound (numbered : List ConnNumber) (fd : Nat) (d : Descriptor) : Prop where
  id : ∀ k, d.socket.sockID = some k → k = fd
  state : d.socket.state = .init ↔ d.socket.sockID = none
  behind : d.socket.sockID ≠ none → ∃ c, d.conn = some c ∧ ⟨c, fd, d.socket.uniqueID % 65536⟩ ∈ numbered
  opens : ∀ n ∈ d.pending, n.type ≠ .close → d.socket.sockID = none ∧ d.conn ≠ none
  once : d.pending.Pairwise fun m n => m.type = .close ∨ n.type = .close
  closes : ∀ before n after, d.pending = before ++ n :: after → n.type = .close → ∀ c c', n.cause = some c →
    d.conn = some c' → c' = c ∨ ∃ o ∈ after, o.type ≠ .close

/-- What a step does to a descriptor. -/
inductive DescriptorStep (numbered : List ConnNumber) (fd : Nat) (d : Descriptor) : Descriptor → Prop
  | same : DescriptorStep numbered fd d d
  | opened (n : NotifyFd) (c : Nat) : n.type ≠ .close → d.conn = none →
      DescriptorStep numbered fd d { d with conn := some c, pending := d.pending ++ [n] }
  | asked (n : NotifyFd) : n.type = .close → (n.cause ≠ none → d.socket.sockID ≠ none ∧ n.cause = d.conn) →
      DescriptorStep numbered fd d { d with pending := d.pending ++ [n] }
  | closing (n : NotifyFd) (rest : List NotifyFd) : d.pending = n :: rest → n.type = .close →
      DescriptorStep numbered fd d { d with socket := d.socket.activeClose, pending := rest }
  | activeClose : DescriptorStep numbered fd d { d with socket := d.socket.activeClose }
  | setUp (n : NotifyFd) (rest : List NotifyFd) (socket : ConnSocket) : d.pending = n :: rest → n.type ≠ .close →
      socket.sockID = some fd → socket.state ≠ .init →
      (∀ c, d.conn = some c → ⟨c, fd, socket.uniqueID % 65536⟩ ∈ numbered) →
      DescriptorStep numbered fd d { d with socket := socket, pending := rest }
  | refused (n : NotifyFd) (rest : List NotifyFd) (socket : ConnSocket) : d.pending = n :: rest → n.type ≠ .close →
      DescriptorStep numbered fd d { socket := socket.release true, conn := none, pending := rest }
  | connected : d.socket.state = .connect →
      DescriptorStep numbered fd d { d with socket := { d.socket with state := .normal } }
  | released : d.socket.sockID ≠ none →
      DescriptorStep numbered fd d { d with socket := d.socket.release true, conn := none }
  | unused : d.socket.sockID = none → DescriptorStep numbered fd d { d with socket := d.socket.release true }

section

variable {numbered numbered' : List ConnNumber} {fd : Nat} {d d' : Descriptor}

theorem ConnSocket.activeClose_of_none {s : ConnSocket} (h : s.sockID = none) : s.activeClose = s := by
  cases s
  simp_all [activeClose]

@[simp] theorem ConnSocket.activeClose_sockID (s : ConnSocket) : s.activeClose.sockID = s.sockID := rfl
@[simp] theorem ConnSocket.activeClose_state (s : ConnSocket) : s.activeClose.state = s.state := rfl
@[simp] theorem ConnSocket.activeClose_uniqueID (s : ConnSocket) : s.activeClose.uniqueID = s.uniqueID := rfl

theorem Descriptor.Sound.conn_none (h : d.Sound numbered fd) (hconn : d.conn = none) : d.socket.sockID = none := by
  by_contra hopen
  obtain ⟨c, hc, -⟩ := h.behind hopen
  rw [hconn] at hc
  cases hc

theorem Descriptor.Sound.noOpens (h : d.Sound numbered fd) (hused : d.socket.sockID ≠ none ∨ d.conn = none) :
    ∀ n ∈ d.pending, n.type = .close := by
  intro n hn
  by_contra hne
  obtain ⟨hsock, hconn⟩ := h.opens n hn hne
  rcases hused with hused | hused
  · exact hused hsock
  · exact hconn hused

/-- The queue behind a new connection holds no further one. -/
theorem Descriptor.Sound.rest_close (h : d.Sound numbered fd) {n : NotifyFd} {rest : List NotifyFd}
    (hpending : d.pending = n :: rest) (hopen : n.type ≠ .close) : ∀ m ∈ rest, m.type = .close := by
  intro m hm
  have honce := h.once
  rw [hpending, List.pairwise_cons] at honce
  exact (honce.1 m hm).resolve_left hopen

/-- The notifications that are left when the first one is taken. -/
theorem Descriptor.Sound.tail_closes (h : d.Sound numbered fd) {n : NotifyFd} {rest : List NotifyFd}
    (hpending : d.pending = n :: rest) :
    ∀ before m after, rest = before ++ m :: after → m.type = .close → ∀ c c', m.cause = some c →
      d.conn = some c' → c' = c ∨ ∃ o ∈ after, o.type ≠ .close := by
  intro before m after hrest
  exact h.closes (n :: before) m after (by rw [hpending, hrest, List.cons_append])

/-- The notifications when one more is added at the end. -/
theorem Descriptor.Sound.push_once (h : d.Sound numbered fd) {n : NotifyFd}
    (hn : n.type = .close ∨ ∀ m ∈ d.pending, m.type = .close) :
    (d.pending ++ [n]).Pairwise fun m n => m.type = .close ∨ n.type = .close := by
  refine List.pairwise_append.mpr ⟨h.once, List.pairwise_singleton _ _, fun m hm k hk => ?_⟩
  obtain rfl := List.mem_singleton.mp hk
  rcases hn with hn | hn
  · exact .inr hn
  · exact .inl (hn m hm)

/-- A place in a list with one more element at the end. -/
theorem append_singleton_split {α : Type*} {l before after : List α} {x y : α} (h : l ++ [x] = before ++ y :: after) :
    (after = [] ∧ y = x ∧ before = l) ∨ ∃ after', after = after' ++ [x] ∧ l = before ++ y :: after' := by
  rcases List.eq_nil_or_concat after with rfl | ⟨after', z, rfl⟩
  · obtain ⟨hl, hx⟩ := List.append_inj' h rfl
    exact .inl ⟨rfl, (List.cons.inj hx).1.symm, hl.symm⟩
  · rw [List.concat_eq_append] at h ⊢
    rw [← List.cons_append, ← List.append_assoc] at h
    obtain ⟨hl, hx⟩ := List.append_inj' h rfl
    obtain ⟨rfl, -⟩ := List.cons.inj hx
    exact .inr ⟨after', rfl, hl⟩

theorem DescriptorStep.sound (step : DescriptorStep numbered' fd d d') (h : d.Sound numbered fd)
    (hgrow : ∀ e ∈ numbered, e ∈ numbered') : d'.Sound numbered' fd := by
  have hbehind : d.socket.sockID ≠ none → ∃ c, d.conn = some c ∧ ⟨c, fd, d.socket.uniqueID % 65536⟩ ∈ numbered' := by
    intro hopen
    obtain ⟨c, hc, hmem⟩ := h.behind hopen
    exact ⟨c, hc, hgrow _ hmem⟩
  cases step with
  | same => exact ⟨h.id, h.state, hbehind, h.opens, h.once, h.closes⟩
  | opened n c hn hconn =>
    have hunused := h.conn_none hconn
    have hcloses := h.noOpens (.inr hconn)
    refine ⟨h.id, h.state, fun hne => absurd hunused hne, fun m hm hopen => ⟨hunused, nofun⟩,
      h.push_once (.inr hcloses), ?_⟩
    intro before m after hsplit hm c' c'' hcause _
    rcases append_singleton_split hsplit with ⟨-, rfl, -⟩ | ⟨after', rfl, -⟩
    · exact absurd hm hn
    · exact .inr ⟨n, List.mem_append_right _ List.mem_cons_self, hn⟩
  | asked n hn hcause =>
    refine ⟨h.id, h.state, hbehind, fun m hm hopen => ?_, h.push_once (.inl hn), ?_⟩
    · rcases List.mem_append.mp hm with hm | hm
      · exact h.opens m hm hopen
      · obtain rfl := List.mem_singleton.mp hm
        exact absurd hn hopen
    · intro before m after hsplit hm c c' hmc hconn
      rcases append_singleton_split hsplit with ⟨-, rfl, -⟩ | ⟨after', rfl, hl⟩
      · obtain ⟨-, hc⟩ := hcause (by rw [hmc]; nofun)
        have hconn' : d.conn = some c' := hconn
        rw [hmc, hconn'] at hc
        exact .inl (Option.some.inj hc).symm
      · rcases h.closes before m after' hl hm c c' hmc hconn with hsame | ⟨o, ho, hopen⟩
        · exact .inl hsame
        · exact .inr ⟨o, List.mem_append_left _ ho, hopen⟩
  | closing n rest hpending hn =>
    have honce := h.once
    rw [hpending, List.pairwise_cons] at honce
    exact ⟨h.id, h.state, hbehind, fun m hm => h.opens m (by rw [hpending]; exact List.mem_cons_of_mem n hm), honce.2,
      h.tail_closes hpending⟩
  | activeClose => exact ⟨h.id, h.state, hbehind, h.opens, h.once, h.closes⟩
  | setUp n rest socket hpending hn hid hstate hnumbered =>
    have hrest := h.rest_close hpending hn
    obtain ⟨-, hconn⟩ := h.opens n (by rw [hpending]; exact List.mem_cons_self) hn
    obtain ⟨c, hc⟩ := Option.ne_none_iff_exists'.mp hconn
    refine ⟨fun k hk => ?_, ?_, fun _ => ⟨c, hc, hnumbered c hc⟩, fun m hm hopen => absurd (hrest m hm) hopen, ?_, ?_⟩
    · rw [hid] at hk
      exact (Option.some.inj hk).symm
    · simp [hstate, hid]
    · exact List.pairwise_of_forall_mem_list fun m hm _ _ => .inl (hrest m hm)
    · exact h.tail_closes hpending
  | refused n rest socket hpending hn =>
    have hrest := h.rest_close hpending hn
    refine ⟨nofun, by simp [ConnSocket.release], fun hne => absurd rfl hne,
      fun m hm hopen => absurd (hrest m hm) hopen, ?_, fun _ _ _ _ _ _ _ _ hconn => by cases hconn⟩
    exact List.pairwise_of_forall_mem_list fun m hm _ _ => .inl (hrest m hm)
  | connected hstate =>
    have hopen : d.socket.sockID ≠ none := by
      rw [Ne, ← h.state, hstate]
      nofun
    exact ⟨h.id, by simp [hopen], hbehind, h.opens, h.once, h.closes⟩
  | released hopen =>
    refine ⟨nofun, by simp [ConnSocket.release], fun hne => absurd rfl hne,
      fun m hm ho => absurd (h.noOpens (.inl hopen) m hm) ho, h.once, fun _ _ _ _ _ _ _ _ hconn => by cases hconn⟩
  | unused hunused =>
    refine ⟨nofun, by simp [ConnSocket.release], fun hne => absurd rfl hne,
      fun m hm ho => ⟨rfl, (h.opens m hm ho).2⟩, h.once, h.closes⟩

end

namespace SocketTable

/-- The notifications for a descriptor that wait for its thread. -/
def pending (s : SocketTable) (fd : Nat) : List NotifyFd :=
  (s.lstNotifyFd (s.getDataThread fd)).filter fun n => n.fd = fd

def descriptor (s : SocketTable) (fd : Nat) : Descriptor where
  socket := s.sockets fd
  conn := s.conn fd
  pending := s.pending fd

/-- What holds between two steps. -/
structure Sound (s : SocketTable) : Prop where
  descriptors : ∀ fd, (s.descriptor fd).Sound s.numbered fd
  placed : ∀ thread, ∀ n ∈ s.lstNotifyFd thread, s.getDataThread n.fd = thread
  addresses : ∀ a ∈ s.addresses, ⟨a.conn, a.connfd, a.nUniqueID % 65536⟩ ∈ s.numbered

variable {s t : SocketTable} {fd k : Nat} {n : NotifyFd}

theorem descriptor_setSocket (s : SocketTable) (fd : Nat) (socket : ConnSocket) :
    (s.setSocket fd socket).descriptor fd = { s.descriptor fd with socket := socket } := by
  simp [descriptor, setSocket, pending, getDataThread]

theorem descriptor_setSocket_of_ne (h : k ≠ fd) (socket : ConnSocket) :
    (s.setSocket fd socket).descriptor k = s.descriptor k := by
  simp [descriptor, setSocket, pending, getDataThread, h]

theorem descriptor_pushNotifyFd (s : SocketTable) (n : NotifyFd) :
    (s.pushNotifyFd n).descriptor n.fd = { s.descriptor n.fd with pending := s.pending n.fd ++ [n] } := by
  simp [descriptor, pushNotifyFd, pending, getDataThread]

theorem descriptor_pushNotifyFd_of_ne (h : k ≠ n.fd) : (s.pushNotifyFd n).descriptor k = s.descriptor k := by
  have hother : ¬n.fd = k := fun heq => h heq.symm
  by_cases hthread : s.getDataThread k = s.getDataThread n.fd
  · simp [descriptor, pushNotifyFd, pending, getDataThread] at hthread ⊢
    rw [hthread, Function.update_self, List.filter_append]
    simp [hother]
  · have hupdate : (s.pushNotifyFd n).lstNotifyFd (s.getDataThread k) = s.lstNotifyFd (s.getDataThread k) :=
      Function.update_of_ne hthread _ _
    unfold descriptor pending
    change Descriptor.mk _ _ (((s.pushNotifyFd n).lstNotifyFd (s.getDataThread k)).filter _) = _
    rw [hupdate]
    rfl

/-- A socket that keeps its own descriptor gives it back to the system. -/
theorem descriptor_releaseSocket (hid : (s.sockets fd).sockID = some fd) :
    (s.releaseSocket fd).descriptor fd =
      { s.descriptor fd with socket := (s.sockets fd).release true, conn := none } := by
  simp [descriptor, releaseSocket, hid, setSocket, pending, getDataThread]

theorem descriptor_releaseSocket_of_ne (hid : ∀ i, (s.sockets fd).sockID = some i → i = fd) (h : k ≠ fd) :
    (s.releaseSocket fd).descriptor k = s.descriptor k := by
  unfold releaseSocket
  cases hsock : (s.sockets fd).sockID with
  | none => exact descriptor_setSocket_of_ne h _
  | some i =>
    obtain rfl := hid i hsock
    simp [descriptor, setSocket, pending, getDataThread, h]

/-- The table when a thread has taken the first notification of its queue. -/
def popNotifyFd (s : SocketTable) (thread : Nat) (rest : List NotifyFd) : SocketTable :=
  { s with lstNotifyFd := Function.update s.lstNotifyFd thread rest }

theorem popNotifyFd_pending {rest : List NotifyFd} (hqueue : s.lstNotifyFd (s.getDataThread n.fd) = n :: rest) :
    s.pending n.fd = n :: (s.popNotifyFd (s.getDataThread n.fd) rest).pending n.fd := by
  simp [pending, popNotifyFd, getDataThread] at hqueue ⊢
  rw [hqueue, List.filter_cons_of_pos (by simp)]

theorem popNotifyFd_descriptor_of_ne {rest : List NotifyFd}
    (hqueue : s.lstNotifyFd (s.getDataThread n.fd) = n :: rest) (h : k ≠ n.fd) :
    (s.popNotifyFd (s.getDataThread n.fd) rest).descriptor k = s.descriptor k := by
  have hother : ¬n.fd = k := fun heq => h heq.symm
  by_cases hthread : k % s.dataThreadCnt = n.fd % s.dataThreadCnt
  · simp only [descriptor, popNotifyFd, pending, getDataThread] at hqueue ⊢
    rw [hthread, Function.update_self, hqueue, List.filter_cons_of_neg (by simpa using hother)]
  · simp [descriptor, popNotifyFd, pending, getDataThread, Function.update_of_ne hthread]

/-- The connections that got a number when `doOpen` has given the next one. -/
def nextNumbered (s : SocketTable) (fd : Nat) : List ConnNumber :=
  match s.conn fd with
  | none => s.numbered
  | some c => ⟨c, fd, (s.sequence + 1) % 65536⟩ :: s.numbered

theorem mem_nextNumbered {e : ConnNumber} (he : e ∈ s.numbered) : e ∈ s.nextNumbered fd := by
  unfold nextNumbered
  split
  · exact he
  · exact List.mem_cons_of_mem _ he

/-- `doOpen` of an unused socket. -/
theorem doOpen_cases (hinit : (s.sockets n.fd).state = .init) (time : Nat) (setup : SetupResult) :
    ∃ socket : ConnSocket, socket.sockID = some n.fd ∧ socket.uniqueID % 65536 = (s.sequence + 1) % 65536 ∧
      ∃ base : SocketTable, base = { s with
        sequence := (s.sequence + 1) % 65536
        numbered := s.nextNumbered n.fd } ∧
        (socket.state ≠ .init ∧ s.doOpen n time setup = base.setSocket n.fd socket ∨
          s.doOpen n time setup = (base.setSocket n.fd socket).releaseSocket n.fd) := by
  have hid : (time % 65535 * 65536 + (s.sequence + 1) % 65536) % 65536 = (s.sequence + 1) % 65536 := by omega
  unfold doOpen
  simp only [hinit, ne_eq, not_true_eq_false, if_false]
  split
  · exact ⟨_, rfl, hid, _, rfl, .inr rfl⟩
  · refine ⟨_, rfl, hid, _, rfl, .inl ⟨?_, rfl⟩⟩
    simp
  · refine ⟨_, rfl, hid, _, rfl, .inl ⟨?_, rfl⟩⟩
    simp

/-- The table when a thread has taken a notification and has given its connection the next number. -/
def numberNext (s : SocketTable) (fd : Nat) (rest : List NotifyFd) : SocketTable :=
  { s.popNotifyFd (s.getDataThread fd) rest with
    sequence := (s.sequence + 1) % 65536
    numbered := s.nextNumbered fd }

/-- What one step can do to the table. -/
inductive TableStep (s : SocketTable) : SocketEvent → SocketTable → Prop
  | opened (type : NotifyType) (fd : Nat) (binaryMode : Bool) : type ≠ .close → s.conn fd = none →
      TableStep s (.opening type fd binaryMode)
        ({ s with conn := Function.update s.conn fd (some s.opened), opened := s.opened + 1 }.pushNotifyFd
          ⟨type, fd, binaryMode, none⟩)
  | closing (n : NotifyFd) (rest : List NotifyFd) (time : Nat) (setup : SetupResult) :
      s.lstNotifyFd (s.getDataThread n.fd) = n :: rest → n.type = .close →
      TableStep s (.notify (s.getDataThread n.fd) time setup)
        ((s.popNotifyFd (s.getDataThread n.fd) rest).setSocket n.fd (s.sockets n.fd).activeClose)
  | setUp (n : NotifyFd) (rest : List NotifyFd) (time : Nat) (setup : SetupResult) (socket : ConnSocket) :
      s.lstNotifyFd (s.getDataThread n.fd) = n :: rest → n.type ≠ .close → socket.sockID = some n.fd →
      socket.state ≠ .init → socket.uniqueID % 65536 = (s.sequence + 1) % 65536 →
      TableStep s (.notify (s.getDataThread n.fd) time setup) ((s.numberNext n.fd rest).setSocket n.fd socket)
  | refused (n : NotifyFd) (rest : List NotifyFd) (time : Nat) (setup : SetupResult) (socket : ConnSocket) :
      s.lstNotifyFd (s.getDataThread n.fd) = n :: rest → n.type ≠ .close → socket.sockID = some n.fd →
      TableStep s (.notify (s.getDataThread n.fd) time setup)
        (((s.numberNext n.fd rest).setSocket n.fd socket).releaseSocket n.fd)
  | connected (fd : Nat) : (s.sockets fd).state = .connect →
      TableStep s (.connected fd true) (s.setSocket fd { s.sockets fd with state := .normal })
  | connectFailed (fd : Nat) : TableStep s (.connected fd false) (s.releaseSocket fd)
  | activeClose (fd : Nat) : TableStep s (.activeClose fd) (s.setSocket fd (s.sockets fd).activeClose)
  | closeCallback (fd : Nat) : TableStep s (.closeCallback fd) (s.releaseSocket fd)
  | closeConnect (fd : Nat) : TableStep s (.closeConnect fd) (s.pushNotifyFd ⟨.close, fd, true, none⟩)
  | read (fd c : Nat) : (s.sockets fd).sockID.bind s.conn = some c →
      TableStep s (.read fd) { s with addresses := ⟨c, fd, (s.sockets fd).uniqueID⟩ :: s.addresses }
  | written (origin : Address) (p : ListSmg) (writes : List SocketWrite) : origin ∈ s.addresses →
      p.connfd = origin.connfd → p.nUniqueID = origin.nUniqueID →
      TableStep s (.send origin p writes) (s.write p.connfd (p.bytesSent (s.outcome p writes)))
  | failed (origin : Address) (p : ListSmg) (writes : List SocketWrite) (binaryMode : Bool) : origin ∈ s.addresses →
      p.connfd = origin.connfd → p.nUniqueID = origin.nUniqueID → (s.sockets p.connfd).sockID ≠ none →
      TableStep s (.send origin p writes) ((s.write p.connfd (p.bytesSent (s.outcome p writes))).pushNotifyFd
        ⟨.close, p.connfd, binaryMode, s.conn p.connfd⟩)

theorem Sound.state_init (h : s.Sound) {rest : List NotifyFd}
    (hqueue : s.lstNotifyFd (s.getDataThread n.fd) = n :: rest) (hopen : n.type ≠ .close) :
    (s.sockets n.fd).state = .init := by
  have hd := h.descriptors n.fd
  have hmem : n ∈ (s.descriptor n.fd).pending := by
    change n ∈ s.pending n.fd
    rw [popNotifyFd_pending hqueue]
    exact List.mem_cons_self
  exact hd.state.mpr (hd.opens n hmem hopen).1

theorem tableStep_notify (h : s.Sound) {thread time : Nat} {setup : SetupResult}
    (hnotify : s.notify thread time setup = some t) : TableStep s (.notify thread time setup) t := by
  unfold notify at hnotify
  split at hnotify
  · cases hnotify
  next n rest hqueue =>
    obtain rfl : s.getDataThread n.fd = thread := h.placed thread n (by rw [hqueue]; exact List.mem_cons_self)
    cases hnotify
    change TableStep s _ (if n.type = .close then
      (s.popNotifyFd (s.getDataThread n.fd) rest).setSocket n.fd (s.sockets n.fd).activeClose
      else (s.popNotifyFd (s.getDataThread n.fd) rest).doOpen n time setup)
    split
    next hclose => exact .closing n rest time setup hqueue hclose
    next hopen =>
      obtain ⟨socket, hid, huid, base, rfl, ⟨hstate, hresult⟩ | hresult⟩ :=
        doOpen_cases (s := s.popNotifyFd (s.getDataThread n.fd) rest) (n := n) (h.state_init hqueue hopen) time setup
      · rw [hresult]
        exact .setUp n rest time setup socket hqueue hopen hid hstate huid
      · rw [hresult]
        exact .refused n rest time setup socket hqueue hopen hid

theorem tableStep_sendMessage (h : s.Sound) {origin : Address} {p : ListSmg} (hmem : origin ∈ s.addresses)
    (hfd : p.connfd = origin.connfd) (huid : p.nUniqueID = origin.nUniqueID) (writes : List SocketWrite) :
    TableStep s (.send origin p writes) (s.sendMessage p writes) := by
  unfold sendMessage
  simp only
  split
  next nLeftBytes id hfailed hid =>
    obtain rfl := (h.descriptors p.connfd).id id hid
    exact .failed origin p writes _ hmem hfd huid (by rw [hid]; nofun)
  next => exact .written origin p writes hmem hfd huid

/-- A step is one of these. -/
theorem tableStep_of_step (h : s.Sound) {e : SocketEvent} (hstep : s.step e = some t) : TableStep s e t := by
  cases e with
  | opening type fd binaryMode =>
    simp only [step, opening, Option.ite_none_right_eq_some] at hstep
    obtain ⟨⟨htype, -, hconn⟩, hstep⟩ := hstep
    cases hstep
    exact .opened type fd binaryMode htype hconn
  | notify thread time setup => exact tableStep_notify h hstep
  | connected fd succeeded =>
    simp only [step, connected] at hstep
    split at hstep
    · cases hstep
    next hstate =>
      rw [not_not] at hstate
      cases succeeded with
      | true =>
        cases hstep
        exact .connected fd hstate
      | false =>
        cases hstep
        exact .connectFailed fd
  | activeClose fd =>
    cases hstep
    exact .activeClose fd
  | closeCallback fd =>
    simp only [step, closeCallback, Option.ite_none_right_eq_some] at hstep
    obtain ⟨-, hstep⟩ := hstep
    cases hstep
    exact .closeCallback fd
  | closeConnect fd =>
    cases hstep
    exact .closeConnect fd
  | read fd =>
    simp only [step, read] at hstep
    split at hstep
    next c hstate hconn =>
      cases hstep
      exact .read fd c hconn
    · cases hstep
  | send origin p writes =>
    simp only [step, Option.ite_none_right_eq_some] at hstep
    obtain ⟨⟨hmem, hfd, huid⟩, hstep⟩ := hstep
    cases hstep
    exact tableStep_sendMessage h hmem hfd huid writes

section

variable {e : SocketEvent}

@[simp] theorem releaseSocket_fields (s : SocketTable) (fd : Nat) :
    (s.releaseSocket fd).numbered = s.numbered ∧ (s.releaseSocket fd).addresses = s.addresses ∧
      (s.releaseSocket fd).lstNotifyFd = s.lstNotifyFd ∧ (s.releaseSocket fd).dataThreadCnt = s.dataThreadCnt ∧
      (s.releaseSocket fd).wire = s.wire := by
  unfold releaseSocket
  split <;> exact ⟨rfl, rfl, rfl, rfl, rfl⟩

theorem write_fields (s : SocketTable) (fd : Nat) (bytes : List UInt8) :
    (∀ k, (s.write fd bytes).descriptor k = s.descriptor k) ∧ (s.write fd bytes).numbered = s.numbered ∧
      (s.write fd bytes).addresses = s.addresses ∧ (s.write fd bytes).lstNotifyFd = s.lstNotifyFd ∧
      (s.write fd bytes).dataThreadCnt = s.dataThreadCnt := by
  unfold write
  split <;> exact ⟨fun _ => rfl, rfl, rfl, rfl, rfl⟩

/-- The numbers that a step gives: only a new connection gets one, which is the next. -/
theorem TableStep.numbered (step : TableStep s e t) :
    t.numbered = s.numbered ∨ ∃ n rest time setup, e = .notify (s.getDataThread n.fd) time setup ∧
      s.lstNotifyFd (s.getDataThread n.fd) = n :: rest ∧ n.type ≠ .close ∧ t.numbered = s.nextNumbered n.fd := by
  cases step with
  | opened | closing | connected | activeClose | closeConnect | read => exact .inl rfl
  | connectFailed fd | closeCallback fd => exact .inl (releaseSocket_fields s fd).1
  | setUp n rest time setup socket hqueue hopen => exact .inr ⟨n, rest, time, setup, rfl, hqueue, hopen, rfl⟩
  | refused n rest time setup socket hqueue hopen =>
    exact .inr ⟨n, rest, time, setup, rfl, hqueue, hopen, (releaseSocket_fields _ _).1⟩
  | written origin p writes => exact .inl (write_fields s _ _).2.1
  | failed origin p writes => exact .inl (write_fields s _ _).2.1

theorem TableStep.mem_numbered (step : TableStep s e t) : ∀ i ∈ s.numbered, i ∈ t.numbered := by
  intro i hi
  rcases step.numbered with hsame | ⟨n, rest, time, setup, -, -, -, hnext⟩
  · rw [hsame]
    exact hi
  · rw [hnext]
    exact mem_nextNumbered hi

/-- Messages keep the connection that they were read from. -/
theorem TableStep.addresses (step : TableStep s e t) :
    ∀ a ∈ t.addresses, a ∈ s.addresses ∨
      (s.sockets a.connfd).sockID.bind s.conn = some a.conn ∧ a.nUniqueID = (s.sockets a.connfd).uniqueID := by
  have hkept : t.addresses = s.addresses → ∀ a ∈ t.addresses, a ∈ s.addresses ∨
      (s.sockets a.connfd).sockID.bind s.conn = some a.conn ∧ a.nUniqueID = (s.sockets a.connfd).uniqueID := by
    intro hsame a ha
    rw [hsame] at ha
    exact .inl ha
  cases step with
  | opened | closing | setUp | connected | activeClose | closeConnect => exact hkept rfl
  | connectFailed fd | closeCallback fd => exact hkept (releaseSocket_fields s fd).2.1
  | refused => exact hkept (releaseSocket_fields _ _).2.1
  | read fd c hconn =>
    intro a ha
    rcases List.mem_cons.mp ha with rfl | ha
    · exact .inr ⟨hconn, rfl⟩
    · exact .inl ha
  | written origin p writes => exact hkept (write_fields s _ _).2.2.1
  | failed origin p writes => exact hkept (write_fields s _ _).2.2.1

/-- A notification goes to the thread of its descriptor. -/
theorem mem_pushNotifyFd {m : NotifyFd} {thread : Nat} (hm : m ∈ (s.pushNotifyFd n).lstNotifyFd thread) :
    m ∈ s.lstNotifyFd thread ∨ s.getDataThread m.fd = thread := by
  unfold pushNotifyFd at hm
  simp only at hm
  by_cases hthread : thread = s.getDataThread n.fd
  · subst hthread
    rw [Function.update_self] at hm
    rcases List.mem_append.mp hm with hm | hm
    · exact .inl hm
    · obtain rfl := List.mem_singleton.mp hm
      exact .inr rfl
  · rw [Function.update_of_ne hthread] at hm
    exact .inl hm

theorem mem_popNotifyFd {m : NotifyFd} {thread thread' : Nat} {rest : List NotifyFd}
    (hqueue : s.lstNotifyFd thread = n :: rest) (hm : m ∈ (s.popNotifyFd thread rest).lstNotifyFd thread') :
    m ∈ s.lstNotifyFd thread' := by
  unfold popNotifyFd at hm
  simp only at hm
  by_cases hthread : thread' = thread
  · subst hthread
    rw [Function.update_self] at hm
    rw [hqueue]
    exact List.mem_cons_of_mem n hm
  · rw [Function.update_of_ne hthread] at hm
    exact hm

theorem TableStep.queues (step : TableStep s e t) :
    t.dataThreadCnt = s.dataThreadCnt ∧
      ∀ thread, ∀ m ∈ t.lstNotifyFd thread, m ∈ s.lstNotifyFd thread ∨ s.getDataThread m.fd = thread := by
  have hkept : t.lstNotifyFd = s.lstNotifyFd →
      ∀ thread, ∀ m ∈ t.lstNotifyFd thread, m ∈ s.lstNotifyFd thread ∨ s.getDataThread m.fd = thread := by
    intro hsame thread m hm
    rw [hsame] at hm
    exact .inl hm
  cases step with
  | opened type fd binaryMode => exact ⟨rfl, fun thread m hm => mem_pushNotifyFd hm⟩
  | closing n rest time setup hqueue => exact ⟨rfl, fun thread m hm => .inl (mem_popNotifyFd hqueue hm)⟩
  | setUp n rest time setup socket hqueue => exact ⟨rfl, fun thread m hm => .inl (mem_popNotifyFd hqueue hm)⟩
  | refused n rest time setup socket hqueue =>
    obtain ⟨-, -, hsame, hcnt, -⟩ := releaseSocket_fields ((s.numberNext n.fd rest).setSocket n.fd socket) n.fd
    refine ⟨hcnt, fun thread m hm => .inl (mem_popNotifyFd hqueue ?_)⟩
    rw [hsame] at hm
    exact hm
  | connected | activeClose | read => exact ⟨rfl, hkept rfl⟩
  | connectFailed fd | closeCallback fd =>
    obtain ⟨-, -, hsame, hcnt, -⟩ := releaseSocket_fields s fd
    exact ⟨hcnt, hkept hsame⟩
  | closeConnect fd => exact ⟨rfl, fun thread m hm => mem_pushNotifyFd hm⟩
  | written origin p writes =>
    obtain ⟨-, -, -, hsame, hcnt⟩ := write_fields s p.connfd (p.bytesSent (s.outcome p writes))
    exact ⟨hcnt, hkept hsame⟩
  | failed origin p writes binaryMode =>
    obtain ⟨-, -, -, hsame, hcnt⟩ := write_fields s p.connfd (p.bytesSent (s.outcome p writes))
    refine ⟨hcnt, fun thread m hm => ?_⟩
    have hpushed := mem_pushNotifyFd hm
    rw [hsame, getDataThread, hcnt] at hpushed
    exact hpushed

/-- The descriptor that a step changes. -/
structure Steps (s t : SocketTable) (fd : Nat) : Prop where
  step : DescriptorStep t.numbered fd (s.descriptor fd) (t.descriptor fd)
  others : ∀ k ≠ fd, t.descriptor k = s.descriptor k

theorem steps_pushNotifyFd (n : NotifyFd) (hd : ∀ k, t.descriptor k = s.descriptor k)
    (hn : DescriptorStep t.numbered n.fd (s.descriptor n.fd)
      { s.descriptor n.fd with pending := (s.descriptor n.fd).pending ++ [n] }) : Steps s (t.pushNotifyFd n) n.fd := by
  refine ⟨?_, fun k hk => by rw [descriptor_pushNotifyFd_of_ne hk, hd k]⟩
  have hpending : t.pending n.fd = (s.descriptor n.fd).pending := congrArg Descriptor.pending (hd n.fd)
  rw [descriptor_pushNotifyFd, hd n.fd, hpending]
  exact hn

theorem steps_setSocket {socket : ConnSocket}
    (hstep : DescriptorStep s.numbered fd (s.descriptor fd) { s.descriptor fd with socket := socket }) :
    Steps s (s.setSocket fd socket) fd :=
  ⟨by rw [descriptor_setSocket]; exact hstep, fun _ hk => descriptor_setSocket_of_ne hk _⟩

theorem steps_releaseSocket (h : s.Sound) (fd : Nat) : Steps s (s.releaseSocket fd) fd := by
  have hd := h.descriptors fd
  refine ⟨?_, fun k hk => descriptor_releaseSocket_of_ne hd.id hk⟩
  cases hsock : (s.sockets fd).sockID with
  | none =>
    unfold releaseSocket
    simp only [hsock]
    rw [descriptor_setSocket]
    exact .unused hsock
  | some i =>
    obtain rfl := hd.id i hsock
    have hopen : (s.descriptor i).socket.sockID ≠ none := by
      change (s.sockets i).sockID ≠ none
      rw [hsock]
      nofun
    rw [descriptor_releaseSocket hsock]
    exact .released hopen

theorem TableStep.steps (step : TableStep s e t) (h : s.Sound) : ∃ fd, Steps s t fd := by
  cases step with
  | opened type fd binaryMode htype hconn =>
    refine ⟨fd, ?_, fun k hk => ?_⟩
    · have hpush := descriptor_pushNotifyFd
        { s with conn := Function.update s.conn fd (some s.opened), opened := s.opened + 1 } ⟨type, fd, binaryMode, none⟩
      have hstep : DescriptorStep s.numbered fd (s.descriptor fd) _ :=
        .opened ⟨type, fd, binaryMode, none⟩ s.opened htype hconn
      rw [hpush]
      simpa [descriptor, pending, getDataThread, pushNotifyFd] using hstep
    · rw [descriptor_pushNotifyFd_of_ne hk]
      simp [descriptor, pending, getDataThread, hk]
  | closing n rest time setup hqueue hclose =>
    refine ⟨n.fd, ?_, fun k hk => ?_⟩
    · rw [descriptor_setSocket]
      exact .closing n _ (popNotifyFd_pending hqueue) hclose
    · rw [descriptor_setSocket_of_ne hk, popNotifyFd_descriptor_of_ne hqueue hk]
  | setUp n rest time setup socket hqueue hopen hid hstate huid =>
    refine ⟨n.fd, ?_, fun k hk => ?_⟩
    · rw [descriptor_setSocket]
      refine .setUp n _ socket (popNotifyFd_pending hqueue) hopen hid hstate fun c hc => ?_
      have hconn : s.conn n.fd = some c := hc
      change _ ∈ s.nextNumbered n.fd
      rw [nextNumbered, hconn, huid]
      exact List.mem_cons_self
    · rw [descriptor_setSocket_of_ne hk]
      exact popNotifyFd_descriptor_of_ne hqueue hk
  | refused n rest time setup socket hqueue hopen hid =>
    have hown : ((s.numberNext n.fd rest).setSocket n.fd socket).sockets n.fd = socket := Function.update_self _ _ _
    refine ⟨n.fd, ?_, fun k hk => ?_⟩
    · rw [descriptor_releaseSocket (by rw [hown, hid]), hown, descriptor_setSocket]
      exact .refused n _ socket (popNotifyFd_pending hqueue) hopen
    · rw [descriptor_releaseSocket_of_ne (by rw [hown, hid]; intro i hi; exact (Option.some.inj hi).symm) hk,
        descriptor_setSocket_of_ne hk]
      exact popNotifyFd_descriptor_of_ne hqueue hk
  | connected fd hstate => exact ⟨fd, steps_setSocket (.connected hstate)⟩
  | connectFailed fd | closeCallback fd => exact ⟨fd, steps_releaseSocket h fd⟩
  | activeClose fd => exact ⟨fd, steps_setSocket .activeClose⟩
  | closeConnect fd =>
    exact ⟨fd, steps_pushNotifyFd ⟨.close, fd, true, none⟩ (fun _ => rfl) (.asked _ rfl fun hcause => absurd rfl hcause)⟩
  | read fd c => exact ⟨fd, .same, fun _ _ => rfl⟩
  | written origin p writes =>
    obtain ⟨hd, -⟩ := write_fields s p.connfd (p.bytesSent (s.outcome p writes))
    exact ⟨p.connfd, by rw [hd]; exact .same, fun k _ => hd k⟩
  | failed origin p writes binaryMode hmem hfd huid hopen =>
    obtain ⟨hd, -⟩ := write_fields s p.connfd (p.bytesSent (s.outcome p writes))
    exact ⟨p.connfd, steps_pushNotifyFd ⟨.close, p.connfd, binaryMode, s.conn p.connfd⟩ hd
      (.asked _ rfl fun _ => ⟨hopen, rfl⟩)⟩

end

/-- The connection behind an open socket has a number, which its unique id holds. -/
theorem Sound.conn_numbered (h : s.Sound) {c : Nat} (hconn : (s.sockets fd).sockID.bind s.conn = some c) :
    ⟨c, fd, (s.sockets fd).uniqueID % 65536⟩ ∈ s.numbered := by
  obtain ⟨id, hid, hc⟩ := Option.bind_eq_some_iff.mp hconn
  obtain rfl := (h.descriptors fd).id id hid
  obtain ⟨c', hc', hmem⟩ := (h.descriptors id).behind (by
    change (s.sockets id).sockID ≠ none
    rw [hid]
    nofun)
  have hsame : c' = c := Option.some.inj (hc'.symm.trans hc)
  rw [← hsame]
  exact hmem

theorem Sound.step (h : s.Sound) {e : SocketEvent} (step : TableStep s e t) : t.Sound := by
  obtain ⟨fd, hsteps⟩ := step.steps h
  obtain ⟨hcnt, hqueues⟩ := step.queues
  refine ⟨fun k => ?_, fun thread n hn => ?_, fun a ha => step.mem_numbered _ ?_⟩
  · by_cases hk : k = fd
    · rw [hk]
      exact hsteps.step.sound (h.descriptors fd) step.mem_numbered
    · rw [hsteps.others k hk]
      exact DescriptorStep.same.sound (h.descriptors k) step.mem_numbered
  · rw [getDataThread, hcnt]
    rcases hqueues thread n hn with hn | hn
    · exact h.placed thread n hn
    · exact hn
  · rcases step.addresses a ha with ha | ⟨hconn, hid⟩
    · exact h.addresses a ha
    · rw [hid]
      exact h.conn_numbered hconn

theorem Start.sound (h : s.Start) : s.Sound := by
  have hpending : ∀ fd, s.pending fd = [] := by
    intro fd
    rw [pending, h.lstNotifyFd]
    rfl
  refine ⟨fun fd => ?_, fun thread n hn => ?_, fun a ha => ?_⟩
  · have hd : s.descriptor fd = ⟨.fresh, none, []⟩ := by
      rw [descriptor, h.sockets, h.conn, hpending]
    rw [hd]
    refine ⟨nofun, ⟨fun _ => rfl, fun _ => rfl⟩, fun hne => absurd rfl hne, fun _ hn => absurd hn List.not_mem_nil,
      .nil, fun before n after hsplit => ?_⟩
    exact absurd hsplit.symm (by simp)
  · rw [h.lstNotifyFd] at hn
    exact absurd hn List.not_mem_nil
  · rw [h.addresses] at ha
    exact absurd ha List.not_mem_nil

theorem sound_of_run {trace : List (Transition SocketTable SocketEvent)} (run : Run trace s) : s.Sound :=
  run.always (fun _ h => h.sound) fun _ _ _ hstep h => h.step (tableStep_of_step h hstep)

/-- A failed message never closes a later connection: when the thread comes to its request, the socket has no
connection, or the connection that the message was sent on. -/
theorem failed_send_closes_own {trace : List (Transition SocketTable SocketEvent)} (run : Run trace s)
    {thread time : Nat} {setup : SetupResult} (hnotify : s.notify thread time setup = some t) {c : Nat}
    (hfront : (s.lstNotifyFd thread).head? = some n) (hclose : n.type = .close) (hcause : n.cause = some c) :
    t.sockets = s.sockets ∨ s.conn n.fd = some c ∧ ∀ k ≠ n.fd, t.sockets k = s.sockets k := by
  have h := sound_of_run run
  unfold notify at hnotify
  split at hnotify
  · cases hnotify
  next n' rest hqueue =>
    rw [hqueue] at hfront
    obtain rfl := Option.some.inj hfront
    simp only [hclose, if_true] at hnotify
    cases hnotify
    obtain rfl : s.getDataThread n'.fd = thread := h.placed thread n' (by rw [hqueue]; exact List.mem_cons_self)
    have hd := h.descriptors n'.fd
    have hpending := popNotifyFd_pending hqueue
    by_cases hopen : (s.sockets n'.fd).sockID = none
    · left
      simp only [setSocket, ConnSocket.activeClose_of_none hopen, Function.update_eq_self]
    · right
      obtain ⟨c', hc', -⟩ := hd.behind hopen
      refine ⟨?_, fun k hk => by simp [setSocket, hk]⟩
      rcases hd.closes [] n' _ hpending hclose c c' hcause hc' with rfl | ⟨o, ho, hne⟩
      · exact hc'
      · have hmem : o ∈ (s.descriptor n'.fd).pending := by
          change o ∈ s.pending n'.fd
          rw [hpending]
          exact List.mem_cons_of_mem _ ho
        exact absurd (hd.opens o hmem hne).1 hopen

end SocketTable

end MasterAI
