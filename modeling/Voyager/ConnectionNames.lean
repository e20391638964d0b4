import Voyager.Lib.CString
import Voyager.Lib.Runs
import Mathlib.Data.List.Nodup
import Mathlib.Logic.Function.Basic
import Mathlib.Algebra.Group.Nat.Defs

/-!
The names under which connections are kept in their loop: `NewConnection` of
core/tcp_server.cc and core/tcp_client.cc, the texts of core/sockaddr.cc, and
`AddConnection` and `RemoveConnection` of core/eventloop.cc. Servers and clients
number their connections with a counter each, so a name is unique among one kind;
the two ends of a connection within one process have mirrored addresses.
-/
namespace Voyager

open Lib Lib.Runs

/-- What `inet_ntop` writes. -/
def isAddrChar (c : Char) : Bool := c.isDigit || ('a' ≤ c && c ≤ 'f') || c == ':' || c == '.'

structure SockAddr where
  ip : List Char
  port : UInt16
  ip_chars : ip.all isAddrChar = true

namespace SockAddr

/-- `FormatAddress`: `[%s]:%u` for an address with colons, else `%s:%u`. -/
def ipbuf (a : SockAddr) : List Char :=
  if ':' ∈ a.ip then '[' :: (a.ip ++ ']' :: ':' :: Nat.toDigits 10 a.port.toNat)
  else a.ip ++ ':' :: Nat.toDigits 10 a.port.toNat

theorem dash_not_mem_ipbuf (a : SockAddr) : '-' ∉ a.ipbuf := by
  have hip : '-' ∉ a.ip := fun h =>
    absurd (List.all_eq_true.mp a.ip_chars _ h) (by decide)
  have hport : '-' ∉ Nat.toDigits 10 a.port.toNat := fun h =>
    absurd (Nat.isDigit_of_mem_toDigits (by decide) (by decide) h) (by decide)
  unfold ipbuf
  split <;> simp [hip, hport]

theorem hash_not_mem_ipbuf (a : SockAddr) : '#' ∉ a.ipbuf := by
  have hip : '#' ∉ a.ip := fun h =>
    absurd (List.all_eq_true.mp a.ip_chars _ h) (by decide)
  have hport : '#' ∉ Nat.toDigits 10 a.port.toNat := fun h =>
    absurd (Nat.isDigit_of_mem_toDigits (by decide) (by decide) h) (by decide)
  unfold ipbuf
  split <;> simp [hip, hport]

end SockAddr

/-- `%d` -/
def formatInt (i : Int) : List Char :=
  if i < 0 then '-' :: Nat.toDigits 10 i.natAbs else Nat.toDigits 10 i.natAbs

theorem formatInt_injective : Function.Injective formatInt := by
  have hdigits {m n : ℕ} (h : Nat.toDigits 10 m = Nat.toDigits 10 n) : m = n := by
    have hread := congrArg (fun ds => Nat.ofDigitChars 10 ds 0) h
    simpa only [Nat.ofDigitChars_ten_toDigits] using hread
  have hdash {n m : ℕ} (h : '-' :: Nat.toDigits 10 m = Nat.toDigits 10 n) : False := by
    have hmem : '-' ∈ Nat.toDigits 10 n := h ▸ List.mem_cons_self
    exact absurd (Nat.isDigit_of_mem_toDigits (by decide) (by decide) hmem) (by decide)
  intro i j h
  unfold formatInt at h
  split at h <;> split at h
  · have := hdigits (List.cons.inj h).2
    omega
  · exact (hdash h).elim
  · exact (hdash h.symm).elim
  · have := hdigits h
    omega

/-- `"%s-%s#%d"`, which fits the 256 bytes of `conn_name`. -/
def connName (addr other : SockAddr) (id : Int) : List Char :=
  addr.ipbuf ++ '-' :: (other.ipbuf ++ '#' :: formatInt id)

theorem connName_inj {addr addr' other other' : SockAddr} {id id' : Int} :
    connName addr other id = connName addr' other' id' ↔
      addr.ipbuf = addr'.ipbuf ∧ other.ipbuf = other'.ipbuf ∧ id = id' := by
  constructor
  · intro h
    obtain ⟨haddr, hrest⟩ :=
      CString.append_stop_inj addr.dash_not_mem_ipbuf addr'.dash_not_mem_ipbuf h
    obtain ⟨hother, hid⟩ :=
      CString.append_stop_inj other.hash_not_mem_ipbuf other'.hash_not_mem_ipbuf hrest
    exact ⟨haddr, hother, formatInt_injective hid⟩
  · rintro ⟨haddr, hother, rfl⟩
    rw [connName, connName, haddr, hother]

/-! The process. -/

inductive Side
  | server
  | client
deriving DecidableEq, Repr

/-- `addr` is `addr_` of the server or client that made it and `other` the address at
the far end, `serial` the number of connections of its side so far. -/
structure NamedConn where
  side : Side
  addr : SockAddr
  other : SockAddr
  serial : ℕ
  loop : ℕ

/-- `conn_id_` is an `int`, and wraps as one. -/
def connId (serial : ℕ) : Int := (serial : Int).bmod (2 ^ 32)

def NamedConn.name (c : NamedConn) : List Char := connName c.addr c.other (connId c.serial)

inductive ConnStage
  | connecting
  | working
  | closed
deriving DecidableEq, Repr

/-- `connections_` and `connection_size_` of one loop; a connection is given by its
number in the process. -/
structure ConnTable where
  connections : List (List Char × ℕ)
  connectionSize : Int
deriving DecidableEq, Repr

namespace ConnTable

def has (t : ConnTable) (name : List Char) : Bool := t.connections.any fun e => e.1 == name

/-- `connections_[name] = ptr`, as it goes on when the assertion is compiled out. -/
def addConnection (t : ConnTable) (name : List Char) (c : ℕ) : ConnTable where
  connections := (name, c) :: t.connections.filter fun e => e.1 != name
  connectionSize := t.connectionSize + 1

def removeConnection (t : ConnTable) (name : List Char) : ConnTable where
  connections := t.connections.filter fun e => e.1 != name
  connectionSize := t.connectionSize - 1

end ConnTable

/-- `asserted` says that the assertion of `AddConnection` has not failed. -/
structure Process where
  serverIds : ℕ
  clientIds : ℕ
  conns : List NamedConn
  stage : ℕ → ConnStage
  loops : ℕ → ConnTable
  asserted : Bool

namespace Process

inductive Act
  | accept (addr peer : SockAddr) (loop : ℕ)
  | startWorking (c : ℕ)
  | connect (addr local_ : SockAddr) (loop : ℕ)
  | close (c : ℕ)

/-- `StartWorking` up to the callback. -/
def start (s : Process) (c : ℕ) (conn : NamedConn) : Process :=
  let table := s.loops conn.loop
  { s with
    stage := Function.update s.stage c .working,
    loops := Function.update s.loops conn.loop (table.addConnection conn.name c),
    asserted := s.asserted && !table.has conn.name }

/-- `HandleClose`, as far as the loop is concerned. -/
def handleClose (s : Process) (c : ℕ) (conn : NamedConn) : Process :=
  { s with
    stage := Function.update s.stage c .closed,
    loops := Function.update s.loops conn.loop
      ((s.loops conn.loop).removeConnection conn.name) }

def next (s : Process) : Act → Option Process
  | .accept addr peer loop =>
    -- `StartWorking` is left to the loop that the connection is assigned to
    some { s with
      serverIds := s.serverIds + 1,
      conns := s.conns ++ [⟨.server, addr, peer, s.serverIds + 1, loop⟩] }
  | .startWorking c =>
    match s.conns[c]?, s.stage c with
    | some conn, .connecting => some (s.start c conn)
    | _, _ => none
  | .connect addr local_ loop =>
    let conn : NamedConn := ⟨.client, addr, local_, s.clientIds + 1, loop⟩
    some (start { s with clientIds := s.clientIds + 1, conns := s.conns ++ [conn] }
      s.conns.length conn)
  | .close c =>
    match s.conns[c]?, s.stage c with
    | _, .connecting => none
    | none, _ => none
    | some conn, _ => some (s.handleClose c conn)

def system : Machine Process Act where
  init := ⟨0, 0, [], fun _ => .connecting, fun _ => ⟨[], 0⟩, true⟩
  next := next

/-- Everything a step can do. -/
inductive Step (s : Process) : Act → Process → Prop
  | accept {addr peer loop} :
      Step s (.accept addr peer loop) { s with
        serverIds := s.serverIds + 1,
        conns := s.conns ++ [⟨.server, addr, peer, s.serverIds + 1, loop⟩] }
  | startWorking {c conn} (hconn : s.conns[c]? = some conn) (hstage : s.stage c = .connecting) :
      Step s (.startWorking c) (s.start c conn)
  | connect {addr local_ loop} :
      Step s (.connect addr local_ loop) (start
        { s with
          clientIds := s.clientIds + 1,
          conns := s.conns ++ [⟨.client, addr, local_, s.clientIds + 1, loop⟩] }
        s.conns.length ⟨.client, addr, local_, s.clientIds + 1, loop⟩)
  | close {c conn} (hconn : s.conns[c]? = some conn) (hstage : s.stage c ≠ .connecting) :
      Step s (.close c) (s.handleClose c conn)

theorem step_of_next {s t : Process} {a : Act} (h : s.next a = some t) : Step s a t := by
  cases a with
  | accept addr peer loop =>
    cases h
    exact .accept
  | startWorking c =>
    simp only [next] at h
    split at h
    · rename_i hconn hstage
      cases h
      exact .startWorking hconn hstage
    · cases h
  | connect addr local_ loop =>
    cases h
    exact .connect
  | close c =>
    simp only [next] at h
    split at h
    · cases h
    · cases h
    · rename_i hconn hstage
      cases h
      exact .close hconn hstage

def ids (s : Process) : Side → ℕ
  | .server => s.serverIds
  | .client => s.clientIds

/-- A connection of the other side at work on the same loop, with the same texts and
the same counter: the other end of `conn`, or one like it. -/
def mirrored (s : Process) (conn : NamedConn) : Bool :=
  s.conns.zipIdx.any fun e =>
    s.stage e.2 == .working && e.1.loop == conn.loop && e.1.side != conn.side &&
      e.1.addr.ipbuf == conn.addr.ipbuf && e.1.other.ipbuf == conn.other.ipbuf &&
      connId e.1.serial == connId conn.serial

/-- No connection is added beside its other end, and none is removed again. -/
def Apart (s : Process) : Act → Prop
  | .accept _ _ _ => True
  | .startWorking c => ∀ conn ∈ s.conns[c]?, s.mirrored conn = false
  | .connect addr local_ loop =>
    s.mirrored ⟨.client, addr, local_, s.clientIds + 1, loop⟩ = false
  | .close c => s.stage c = .working

instance (s : Process) : (a : Act) → Decidable (Apart s a)
  | .accept _ _ _ => .isTrue trivial
  | .startWorking c => inferInstanceAs (Decidable (∀ conn ∈ s.conns[c]?, s.mirrored conn = false))
  | .connect addr local_ loop =>
    inferInstanceAs (Decidable (s.mirrored ⟨.client, addr, local_, _, loop⟩ = false))
  | .close c => inferInstanceAs (Decidable (s.stage c = .working))

/-- Each name was new when it was added, every working connection is kept under its
own, and the counter is the number of entries. -/
structure Registered (s : Process) : Prop where
  asserted : s.asserted = true
  kept : ∀ c conn, s.conns[c]? = some conn → s.stage c = .working →
    (conn.name, c) ∈ (s.loops conn.loop).connections
  size : ∀ l, (s.loops l).connectionSize = (s.loops l).connections.length

structure Inv (s : Process) : Prop where
  asserted : s.asserted = true
  count : s.serverIds + s.clientIds = s.conns.length
  serial_le : ∀ (c : ℕ) (x : NamedConn), s.conns[c]? = some x → x.serial ≤ s.ids x.side
  serial_inj : ∀ (c d : ℕ) (x y : NamedConn), s.conns[c]? = some x → s.conns[d]? = some y →
    x.side = y.side → x.serial = y.serial → c = d
  fresh : ∀ c, s.conns.length ≤ c → s.stage c = .connecting
  mem_table : ∀ l e, e ∈ (s.loops l).connections ↔
    ∃ x, s.conns[e.2]? = some x ∧ s.stage e.2 = .working ∧ x.loop = l ∧ e.1 = x.name
  names : ∀ l, ((s.loops l).connections.map Prod.fst).Nodup
  size : ∀ l, (s.loops l).connectionSize = (s.loops l).connections.length

theorem inv_init : Inv system.init :=
  ⟨rfl, rfl, nofun, nofun, fun _ _ => rfl, by simp [system], by simp [system], by simp [system]⟩

theorem connId_inj {m n : ℕ} (hm : m < 2 ^ 32) (hn : n < 2 ^ 32) (h : connId m = connId n) :
    m = n := by
  have hmod : (m : Int) % ((2 ^ 32 : ℕ) : Int) = (n : Int) % ((2 ^ 32 : ℕ) : Int) :=
    calc (m : Int) % ((2 ^ 32 : ℕ) : Int)
      _ = connId m % ((2 ^ 32 : ℕ) : Int) := Int.bmod_emod.symm
      _ = connId n % ((2 ^ 32 : ℕ) : Int) := by rw [h]
      _ = (n : Int) % ((2 ^ 32 : ℕ) : Int) := Int.bmod_emod
  omega

theorem mirrored_eq_true {s : Process} {conn : NamedConn} {d : ℕ} {x : NamedConn}
    (hx : s.conns[d]? = some x) (hstage : s.stage d = .working) (hloop : x.loop = conn.loop)
    (hside : x.side ≠ conn.side) (haddr : x.addr.ipbuf = conn.addr.ipbuf)
    (hother : x.other.ipbuf = conn.other.ipbuf) (hid : connId x.serial = connId conn.serial) :
    s.mirrored conn = true := by
  rw [mirrored, List.any_eq_true]
  refine ⟨(x, d), List.mem_zipIdx_iff_getElem?.mpr hx, ?_⟩
  simp [hstage, hloop, hside, haddr, hother, hid]

section

variable {s : Process}

theorem Inv.ids_le (h : Inv s) (side : Side) : s.ids side ≤ s.conns.length := by
  rw [← h.count]
  cases side with
  | server => exact Nat.le_add_right _ _
  | client => exact Nat.le_add_left _ _

/-- Names differ: within a side by the counter, between the sides by assumption. -/
theorem Inv.has_name_eq_false (h : Inv s) (hcount : s.conns.length < 2 ^ 32) {c : ℕ}
    {x : NamedConn} (hx : s.conns[c]? = some x) (hstage : s.stage c = .connecting)
    (happart : s.mirrored x = false) : (s.loops x.loop).has x.name = false := by
  rw [ConnTable.has, List.any_eq_false]
  intro e he hname
  obtain ⟨y, hy, hworking, hloop, hkey⟩ := (h.mem_table x.loop e).mp he
  rw [beq_iff_eq, hkey] at hname
  obtain ⟨haddr, hother, hid⟩ := connName_inj.mp hname
  by_cases hside : y.side = x.side
  · have hxle := h.serial_le c x hx
    have hyle := h.serial_le e.2 y hy
    have hxids := h.ids_le x.side
    have hyids := h.ids_le y.side
    have hserial := connId_inj (by omega) (by omega) hid
    have hsame := h.serial_inj e.2 c y x hy hx hside hserial
    rw [hsame, hstage] at hworking
    cases hworking
  · rw [mirrored_eq_true hy hworking hloop hside haddr hother hid] at happart
    cases happart

/-- `++conn_id_` and the connection of that number. -/
theorem Inv.create (h : Inv s) {t : Process} {x : NamedConn} (hx : x.serial = s.ids x.side + 1)
    (hids : ∀ side, t.ids side = s.ids side + if side = x.side then 1 else 0)
    (hconns : t.conns = s.conns ++ [x]) (hstage : t.stage = s.stage) (hloops : t.loops = s.loops)
    (hasserted : t.asserted = s.asserted) : Inv t := by
  have hold {c : ℕ} (hc : c < s.conns.length) : t.conns[c]? = s.conns[c]? := by
    rw [hconns, List.getElem?_append_left hc]
  have hcases {c : ℕ} {y : NamedConn} (hy : t.conns[c]? = some y) :
      s.conns[c]? = some y ∨ (c = s.conns.length ∧ y = x) := by
    by_cases hc : c < s.conns.length
    · rw [hold hc] at hy
      exact .inl hy
    · have hlt := (List.getElem?_eq_some_iff.mp hy).1
      rw [hconns, List.length_append, List.length_singleton] at hlt
      have hlast : c = s.conns.length := by omega
      rw [hconns, hlast, List.getElem?_concat_length, Option.some.injEq] at hy
      exact .inr ⟨hlast, hy.symm⟩
  have hgrow (side : Side) : s.ids side ≤ t.ids side := by
    rw [hids]
    exact Nat.le_add_right _ _
  refine ⟨by rw [hasserted]; exact h.asserted, ?_, fun c y hy => ?_,
    fun c d y z hy hz hside hserial => ?_, fun c hc => ?_, fun l e => ?_,
    by rw [hloops]; exact h.names, by rw [hloops]; exact h.size⟩
  · have hserver := hids .server
    have hclient := hids .client
    have hcount := h.count
    simp only [ids] at hserver hclient
    rw [hconns, List.length_append, List.length_singleton, ← hcount, hserver, hclient]
    cases x.side <;> simp <;> omega
  · rcases hcases hy with hy | ⟨-, rfl⟩
    · exact (h.serial_le c y hy).trans (hgrow _)
    · rw [hx, hids, if_pos rfl]
  · have hnew {c : ℕ} {y : NamedConn} (hy : s.conns[c]? = some y) (hside : y.side = x.side) :
        y.serial ≠ x.serial := by
      have hle := h.serial_le c y hy
      rw [hside] at hle
      omega
    rcases hcases hy with hy | ⟨hc, rfl⟩
    · rcases hcases hz with hz | ⟨-, rfl⟩
      · exact h.serial_inj c d y z hy hz hside hserial
      · exact absurd hserial (hnew hy hside)
    · rcases hcases hz with hz | ⟨hd, rfl⟩
      · exact absurd hserial.symm (hnew hz hside.symm)
      · rw [hc, hd]
  · rw [hconns, List.length_append, List.length_singleton] at hc
    rw [hstage]
    exact h.fresh c (by omega)
  · rw [hloops, h.mem_table, hstage]
    constructor
    · rintro ⟨y, hy, hrest⟩
      exact ⟨y, (hold (List.getElem?_eq_some_iff.mp hy).1).trans hy, hrest⟩
    · rintro ⟨y, hy, hworking, hrest⟩
      rcases hcases hy with hy | ⟨hlast, -⟩
      · exact ⟨y, hy, hworking, hrest⟩
      · rw [h.fresh e.2 (Nat.le_of_eq hlast.symm)] at hworking
        cases hworking

theorem ConnTable.filter_of_not_has {t : ConnTable} {name : List Char} (h : t.has name = false) :
    (t.connections.filter fun e => e.1 != name) = t.connections := by
  rw [List.filter_eq_self]
  intro e he
  rw [ConnTable.has, List.any_eq_false] at h
  simpa using h e he

/-- One connection changes its stage, and the table of its loop with it. -/
theorem Inv.retable (h : Inv s) {c : ℕ} {x : NamedConn} (hx : s.conns[c]? = some x)
    {stage : ConnStage} {table : ConnTable} {asserted : Bool} (hasserted : asserted = true)
    (hmem : ∀ e, e ∈ table.connections ↔
      if e.2 = c then stage = .working ∧ e.1 = x.name else e ∈ (s.loops x.loop).connections)
    (hnames : (table.connections.map Prod.fst).Nodup)
    (hsize : table.connectionSize = table.connections.length) :
    Inv { s with
      stage := Function.update s.stage c stage,
      loops := Function.update s.loops x.loop table,
      asserted := asserted } := by
  refine ⟨hasserted, h.count, h.serial_le, h.serial_inj, fun d hd => ?_, fun l e => ?_,
    fun l => ?_, fun l => ?_⟩
  · have hlt := (List.getElem?_eq_some_iff.mp hx).1
    have hle : s.conns.length ≤ d := hd
    have hne : d ≠ c := by omega
    exact (Function.update_of_ne hne _ _).trans (h.fresh d hd)
  · dsimp only
    by_cases hc : e.2 = c
    · have hentry : (∃ y, s.conns[e.2]? = some y ∧ Function.update s.stage c stage e.2 = .working ∧
          y.loop = l ∧ e.1 = y.name) ↔ l = x.loop ∧ stage = .working ∧ e.1 = x.name := by
        simp only [hc, hx, Function.update_self, Option.some.injEq, exists_eq_left']
        tauto
      rw [hentry]
      by_cases hl : l = x.loop
      · rw [hl, Function.update_self, hmem, if_pos hc, and_iff_right rfl]
      · rw [Function.update_of_ne hl]
        refine iff_of_false (fun he => hl ?_) fun hx => hl hx.1
        obtain ⟨y, hy, -, hloop, -⟩ := (h.mem_table l e).mp he
        rw [hc, hx, Option.some.injEq] at hy
        rw [← hloop, hy]
    · rw [Function.update_of_ne hc, ← h.mem_table]
      by_cases hl : l = x.loop
      · rw [hl, Function.update_self, hmem, if_neg hc]
      · rw [Function.update_of_ne hl]
  · by_cases hl : l = x.loop
    · simpa [hl] using hnames
    · simpa [hl] using h.names l
  · by_cases hl : l = x.loop
    · simpa [hl] using hsize
    · simpa [hl] using h.size l

theorem Inv.start (h : Inv s) {c : ℕ} {x : NamedConn} (hx : s.conns[c]? = some x)
    (hstage : s.stage c = .connecting) (hnew : (s.loops x.loop).has x.name = false) :
    Inv (s.start c x) := by
  have htable : ((s.loops x.loop).addConnection x.name c).connections =
      (x.name, c) :: (s.loops x.loop).connections := by
    rw [ConnTable.addConnection, ConnTable.filter_of_not_has hnew]
  refine h.retable hx (by simp [h.asserted, hnew]) (fun e => ?_) ?_ ?_
  · rw [htable, List.mem_cons]
    split
    · rename_i hc
      have hold : e ∉ (s.loops x.loop).connections := by
        intro he
        obtain ⟨-, -, hworking, -⟩ := (h.mem_table x.loop e).mp he
        rw [hc, hstage] at hworking
        cases hworking
      rw [or_iff_left hold, Prod.ext_iff, and_iff_left hc, and_iff_right rfl]
    · rename_i hc
      exact or_iff_right fun he => hc (by rw [he])
  · rw [htable, List.map_cons, List.nodup_cons]
    refine ⟨?_, h.names _⟩
    rw [ConnTable.has, List.any_eq_false] at hnew
    intro hmem
    obtain ⟨e, he, hname⟩ := List.mem_map.mp hmem
    exact hnew e he (beq_iff_eq.mpr hname)
  · rw [htable, List.length_cons]
    have hsize := h.size x.loop
    simp only [ConnTable.addConnection]
    omega

theorem Inv.handleClose (h : Inv s) {c : ℕ} {x : NamedConn} (hx : s.conns[c]? = some x)
    (hstage : s.stage c = .working) : Inv (s.handleClose c x) := by
  have hmem : (x.name, c) ∈ (s.loops x.loop).connections :=
    (h.mem_table x.loop (x.name, c)).mpr ⟨x, hx, hstage, rfl, rfl⟩
  have hnodup := List.Nodup.of_map _ (h.names x.loop)
  -- the name stands for this connection alone
  have hkey {e : List Char × ℕ} (he : e ∈ (s.loops x.loop).connections) :
      e.1 = x.name ↔ e = (x.name, c) := by
    constructor
    · intro hname
      exact List.inj_on_of_nodup_map (h.names x.loop) he hmem hname
    · rintro rfl
      rfl
  have htable : ((s.loops x.loop).removeConnection x.name).connections =
      (s.loops x.loop).connections.erase (x.name, c) := by
    rw [hnodup.erase_eq_filter, ConnTable.removeConnection]
    apply List.filter_congr
    intro e he
    rw [Bool.eq_iff_iff, bne_iff_ne, bne_iff_ne, not_iff_not]
    exact hkey he
  refine h.retable hx h.asserted (fun e => ?_) ?_ ?_
  · rw [htable, hnodup.mem_erase_iff]
    split
    · rename_i hc
      refine iff_of_false ?_ (by simp)
      rintro ⟨hne, he⟩
      obtain ⟨y, hy, -, -, hname⟩ := (h.mem_table x.loop e).mp he
      rw [hc, hx, Option.some.injEq] at hy
      rw [← hy] at hname
      exact hne (Prod.ext hname hc)
    · rename_i hc
      exact and_iff_right fun he => hc (by rw [he])
  · rw [htable]
    exact (h.names x.loop).sublist (List.erase_sublist.map _)
  · rw [htable, List.length_erase_of_mem hmem]
    have hsize := h.size x.loop
    have hpos := List.length_pos_of_mem hmem
    simp only [ConnTable.removeConnection]
    omega

end

theorem Step.length_le {s t : Process} {a : Act} (h : Step s a t) :
    s.conns.length ≤ t.conns.length := by
  cases h with
  | accept => simp
  | startWorking => exact Nat.le_refl _
  | connect => simp [start]
  | close => exact Nat.le_refl _

theorem Inv.step {s t : Process} {a : Act} (h : Inv s) (hcount : t.conns.length < 2 ^ 32)
    (hapart : Apart s a) (hstep : Step s a t) : Inv t := by
  cases hstep with
  | accept =>
    refine h.create (x := ⟨.server, _, _, s.serverIds + 1, _⟩) rfl (fun side => ?_) rfl rfl rfl rfl
    cases side <;> rfl
  | startWorking hconn hstage =>
    exact h.start hconn hstage (h.has_name_eq_false hcount hconn hstage (hapart _ hconn))
  | @connect addr local_ loop =>
    have hcreated : Inv { s with
        clientIds := s.clientIds + 1,
        conns := s.conns ++ [⟨.client, addr, local_, s.clientIds + 1, loop⟩] } := by
      refine h.create (x := ⟨.client, addr, local_, s.clientIds + 1, loop⟩) rfl (fun side => ?_)
        rfl rfl rfl rfl
      cases side <;> rfl
    have hconn : (s.conns ++ [⟨.client, addr, local_, s.clientIds + 1, loop⟩])[s.conns.length]? =
        some ⟨.client, addr, local_, s.clientIds + 1, loop⟩ := List.getElem?_concat_length
    have hstage := h.fresh s.conns.length (Nat.le_refl _)
    refine hcreated.start hconn hstage (hcreated.has_name_eq_false hcount hconn hstage ?_)
    rw [mirrored, List.zipIdx_append, List.any_append, Bool.or_eq_false_iff]
    exact ⟨hapart, by simp [hstage]⟩
  | close hconn _ => exact h.handleClose hconn hapart

/-- Connection names. -/
theorem connections_registered (s : Process) (hs : system.ReachableWhen Apart s)
    (hcount : s.conns.length < 2 ^ 32) : Registered s := by
  have hinv : s.conns.length < 2 ^ 32 → Inv s := by
    refine Machine.ReachableWhen.invariant
      (P := fun s => s.conns.length < 2 ^ 32 → Inv s) (fun _ => inv_init) ?_ hs
    intro s a t _ hapart ih hnext hcount
    have hstep := step_of_next hnext
    exact (ih (Nat.lt_of_le_of_lt hstep.length_le hcount)).step hcount hapart hstep
  have h := hinv hcount
  refine ⟨h.asserted, fun c conn hconn hstage => ?_, h.size⟩
  exact (h.mem_table conn.loop (conn.name, c)).mpr ⟨conn, hconn, hstage, rfl, rfl⟩

def loopback (port : UInt16) : SockAddr where
  ip := ['1', '2', '7', '.', '0', '.', '0', '.', '1']
  port := port
  ip_chars := rfl

/-- One connection from elsewhere, and then both ends of one within the process. -/
def bothEnds : List Act :=
  [.accept (loopback 5666) (loopback 50000) 0, .startWorking 0,
    .connect (loopback 5666) (loopback 40000) 0, .accept (loopback 5666) (loopback 40000) 0,
    .startWorking 2, .close 0]

theorem connections_registered_bothEnds :
    ∃ s, system.ReachableWhen Apart s ∧ s.conns.length < 2 ^ 32 ∧
      (s.loops 0).connectionSize = 2 ∧ Registered s := by
  obtain ⟨s, hs, hlen, hsize⟩ := Machine.exists_reachableWhen_of_run (M := system) Apart bothEnds
    (fun s => s.conns.length < 2 ^ 32 ∧ (s.loops 0).connectionSize = 2) (by decide +kernel)
  exact ⟨s, hs, hlen, hsize, connections_registered s hs hlen⟩

/-- The first client of a process connects to its first server, on one loop: both
ends are `127.0.0.1:5666-127.0.0.1:40000#1`. -/
theorem both_ends_same_name :
    ∃ s, system.Reachable s ∧ s.conns.length < 2 ^ 32 ∧ ¬Registered s := by
  obtain ⟨s, hs, hlen, hfailed⟩ := Machine.exists_reachable_of_run (M := system)
    [.connect (loopback 5666) (loopback 40000) 0, .accept (loopback 5666) (loopback 40000) 0,
      .startWorking 1]
    (fun s => s.conns.length < 2 ^ 32 ∧ s.asserted = false) (by decide +kernel)
  refine ⟨s, hs, hlen, fun hregistered => ?_⟩
  rw [hregistered.asserted] at hfailed
  cases hfailed

end Process

end Voyager
