import Voyager.Lib.Runs
import Mathlib.Data.Finset.Basic
import Mathlib.Logic.Function.Basic
import Mathlib.Order.Lattice.Nat

/-!
`TcpMonitor` of core/tcp_monitor.cc, which `HttpServer` asks for every connection:
one counter over all connections and one for each ip. A refused connection is
counted as well, from its `OnConnection` until its `OnClose`. Each call is one
step, as it runs under the mutex.
-/
namespace Voyager

open Lib.Runs

abbrev Ip := List Char

/-- The counters are of type `int`; they are at most the number of descriptors. -/
structure TcpMonitor where
  kMaxAllConnections : Int
  kMaxIpConnections : Int
  counter : Int
  allowIpSet : Finset Ip
  denyIpSet : Finset Ip
  ipCounter : Ip → Option Int

namespace TcpMonitor

/-- The constructor, and the setters of the two sets. -/
def create (maxAllConnections maxIpConnections : Int) (allowIpSet denyIpSet : Finset Ip) :
    TcpMonitor where
  kMaxAllConnections := maxAllConnections
  kMaxIpConnections := maxIpConnections
  counter := 0
  allowIpSet := allowIpSet
  denyIpSet := denyIpSet
  ipCounter _ := none

def addAllowIp (m : TcpMonitor) (ip : Ip) : TcpMonitor :=
  { m with allowIpSet := insert ip m.allowIpSet }

def deleteAllowIp (m : TcpMonitor) (ip : Ip) : TcpMonitor :=
  { m with allowIpSet := m.allowIpSet.erase ip }

def addDenyIp (m : TcpMonitor) (ip : Ip) : TcpMonitor :=
  { m with denyIpSet := insert ip m.denyIpSet }

def deleteDenyIp (m : TcpMonitor) (ip : Ip) : TcpMonitor :=
  { m with denyIpSet := m.denyIpSet.erase ip }

/-- The part of `OnConnection` about one ip: the new counter, and whether the
connection is refused for it. -/
def countIp (m : TcpMonitor) (ip : Ip) : TcpMonitor × Bool :=
  if m.kMaxIpConnections ≠ 0 then
    match m.ipCounter ip with
    | some n =>
      ({ m with ipCounter := Function.update m.ipCounter ip (some (n + 1)) },
        decide (m.kMaxIpConnections < n + 1 ∧ ip ∉ m.allowIpSet))
    | none => ({ m with ipCounter := Function.update m.ipCounter ip (some 1) }, false)
  else (m, false)

/-- With it, the value returned; `ForceClose` is called when it is `false`. -/
def onConnection (m : TcpMonitor) (ip : Ip) : TcpMonitor × Bool :=
  let m := { m with counter := m.counter + 1 }
  let counted := m.countIp ip
  (counted.1, decide (m.counter ≤ m.kMaxAllConnections) && !counted.2 &&
    decide (ip ∉ m.denyIpSet))

/-- Everything but the counters stays. -/
theorem onConnection_frame (m : TcpMonitor) (ip : Ip) :
    (m.onConnection ip).1 = { m with
      counter := m.counter + 1
      ipCounter := (m.onConnection ip).1.ipCounter } := by
  simp only [onConnection, countIp]
  split
  · split <;> rfl
  · rfl

theorem ipCounter_onConnection {m : TcpMonitor} (hne : m.kMaxIpConnections ≠ 0) (ip ip' : Ip) :
    (m.onConnection ip).1.ipCounter ip' =
      if ip' = ip then some ((m.ipCounter ip).getD 0 + 1) else m.ipCounter ip' := by
  simp only [onConnection, countIp]
  rw [if_pos hne]
  cases hentry : m.ipCounter ip with
  | none => simp [Function.update_apply]
  | some n => simp [Function.update_apply]

/-- What an admitted connection has passed. -/
theorem onConnection_limits (m : TcpMonitor) (ip : Ip) (h : (m.onConnection ip).2 = true) :
    m.counter + 1 ≤ m.kMaxAllConnections ∧
      (0 < m.kMaxIpConnections → ip ∉ m.allowIpSet →
        (m.ipCounter ip).getD 0 + 1 ≤ m.kMaxIpConnections) ∧ ip ∉ m.denyIpSet := by
  simp only [onConnection, Bool.and_eq_true, Bool.not_eq_true', decide_eq_true_eq] at h
  obtain ⟨⟨hall, hip⟩, hdeny⟩ := h
  refine ⟨hall, fun hpos hallow => ?_, hdeny⟩
  have hne : m.kMaxIpConnections ≠ 0 := by omega
  simp only [countIp, if_pos hne] at hip
  cases hentry : m.ipCounter ip with
  | none =>
    rw [Option.getD_none]
    omega
  | some n =>
    simp only [hentry, decide_eq_false_iff_not, not_and, not_not] at hip
    by_contra hlt
    exact hallow (hip (by simpa using hlt))

/-- `none` is a failed assertion. -/
def onClose (m : TcpMonitor) (ip : Ip) : Option TcpMonitor :=
  if m.kMaxIpConnections ≠ 0 then
    (m.ipCounter ip).map fun n =>
      { m with
        ipCounter := Function.update m.ipCounter ip (if n - 1 ≤ 0 then none else some (n - 1))
        counter := m.counter - 1 }
  else some { m with counter := m.counter - 1 }

/-- A connection between its `OnConnection` and its `OnClose`. -/
structure Conn where
  number : ℕ
  ip : Ip
  admitted : Bool
deriving DecidableEq, Repr

/-- An answer of `OnConnection`, and whether the ip was in the deny set then. -/
structure Answer where
  ip : Ip
  admitted : Bool
  denied : Bool
deriving DecidableEq, Repr

end TcpMonitor

open TcpMonitor

/-- The monitor in use. `allowedOnce` are the ips that have been in the allow set at
some time, and `asserted` says that no assertion has failed. -/
structure Monitored where
  monitor : TcpMonitor
  opened : List Conn
  answers : List Answer
  allowedOnce : Finset Ip
  asserted : Bool

namespace Monitored

inductive Act
  | onConnection (ip : Ip)
  | onClose (c : Conn)
  | addAllowIp (ip : Ip)
  | deleteAllowIp (ip : Ip)
  | addDenyIp (ip : Ip)
  | deleteDenyIp (ip : Ip)
deriving DecidableEq, Repr

def next (s : Monitored) : Act → Option Monitored
  | .onConnection ip =>
    let r := s.monitor.onConnection ip
    some { s with
      monitor := r.1
      opened := ⟨s.answers.length, ip, r.2⟩ :: s.opened
      answers := s.answers ++ [⟨ip, r.2, decide (ip ∈ s.monitor.denyIpSet)⟩] }
  | .onClose c =>
    if c ∈ s.opened then
      match s.monitor.onClose c.ip with
      | some m => some { s with monitor := m, opened := s.opened.erase c }
      | none => some { s with opened := s.opened.erase c, asserted := false }
    else none
  | .addAllowIp ip =>
    some { s with
      monitor := s.monitor.addAllowIp ip
      allowedOnce := insert ip s.allowedOnce }
  | .deleteAllowIp ip => some { s with monitor := s.monitor.deleteAllowIp ip }
  | .addDenyIp ip => some { s with monitor := s.monitor.addDenyIp ip }
  | .deleteDenyIp ip => some { s with monitor := s.monitor.deleteDenyIp ip }

def system (maxAll maxIp : Int) (allow deny : Finset Ip) : Machine Monitored Act where
  init := ⟨.create maxAll maxIp allow deny, [], [], allow, true⟩
  next := next

/-- How many connections of an ip are open, and how many of them were admitted. -/
def openOf (s : Monitored) (ip : Ip) : ℕ := s.opened.countP fun c => c.ip = ip

def admittedOf (s : Monitored) (ip : Ip) : ℕ := s.opened.countP fun c => c.ip = ip ∧ c.admitted

def admitted (s : Monitored) : ℕ := s.opened.countP fun c => c.admitted

/-- What the monitor is for. -/
structure Limited (maxAll maxIp : Int) (s : Monitored) : Prop where
  asserted : s.asserted = true
  counter : s.monitor.counter = s.opened.length
  ipCounter : 0 < maxIp → ∀ ip, s.monitor.ipCounter ip =
    if s.openOf ip = 0 then none else some (s.openOf ip : Int)
  all : 0 ≤ maxAll → (s.admitted : Int) ≤ maxAll
  perIp : 0 < maxIp → ∀ ip, ip ∉ s.allowedOnce → (s.admittedOf ip : Int) ≤ maxIp
  denied : ∀ a ∈ s.answers, a.admitted = true → a.denied = false

/-- With it, what the limits rest on. -/
structure Inv (maxAll maxIp : Int) (s : Monitored) : Prop where
  kMaxAll : s.monitor.kMaxAllConnections = maxAll
  kMaxIp : s.monitor.kMaxIpConnections = maxIp
  allowed : s.monitor.allowIpSet ⊆ s.allowedOnce
  asserted : s.asserted = true
  counter : s.monitor.counter = s.opened.length
  ipCounter : maxIp ≠ 0 → ∀ ip, s.monitor.ipCounter ip =
    if s.openOf ip = 0 then none else some (s.openOf ip : Int)
  all : 0 ≤ maxAll → (s.admitted : Int) ≤ maxAll
  perIp : 0 < maxIp → ∀ ip, ip ∉ s.allowedOnce → (s.admittedOf ip : Int) ≤ maxIp
  denied : ∀ a ∈ s.answers, a.admitted = true → a.denied = false

theorem inv_init (maxAll maxIp : Int) (allow deny : Finset Ip) :
    Inv maxAll maxIp (system maxAll maxIp allow deny).init where
  kMaxAll := rfl
  kMaxIp := rfl
  allowed := Finset.Subset.refl _
  asserted := rfl
  counter := rfl
  ipCounter _ ip := by simp [system, create, openOf]
  all h := by simpa [system, admitted] using h
  perIp h ip _ := by simpa [system, admittedOf] using le_of_lt h
  denied a ha := by simp [system] at ha

section

variable {maxAll maxIp : Int} {s : Monitored}

theorem admitted_le_length (s : Monitored) : s.admitted ≤ s.opened.length := List.countP_le_length

theorem admittedOf_le_openOf (s : Monitored) (ip : Ip) : s.admittedOf ip ≤ s.openOf ip := by
  refine List.countP_mono_left fun c _ hc => ?_
  simp only [decide_eq_true_eq] at hc ⊢
  exact hc.1

theorem Inv.onConnection (h : Inv maxAll maxIp s) (ip : Ip) :
    Inv maxAll maxIp { s with
      monitor := (s.monitor.onConnection ip).1
      opened := ⟨s.answers.length, ip, (s.monitor.onConnection ip).2⟩ :: s.opened
      answers := s.answers ++
        [⟨ip, (s.monitor.onConnection ip).2, decide (ip ∈ s.monitor.denyIpSet)⟩] } := by
  have hframe := onConnection_frame s.monitor ip
  have hlimits := s.monitor.onConnection_limits ip
  have hnumber (hne : maxIp ≠ 0) : (s.monitor.ipCounter ip).getD 0 = s.openOf ip := by
    rw [h.ipCounter hne]
    split
    · rename_i hzero
      simp [hzero]
    · rfl
  refine
    { kMaxAll := ?kMaxAll
      kMaxIp := ?kMaxIp
      allowed := ?allowed
      asserted := h.asserted
      counter := ?counter
      ipCounter := fun hne ip' => ?ipCounter
      all := fun hpos => ?all
      perIp := fun hpos ip' hip' => ?perIp
      denied := fun a ha hadmitted => ?denied }
  case kMaxAll =>
    rw [hframe]
    exact h.kMaxAll
  case kMaxIp =>
    rw [hframe]
    exact h.kMaxIp
  case allowed =>
    rw [hframe]
    exact h.allowed
  case counter =>
    rw [hframe]
    simp [h.counter]
  case ipCounter =>
    simp only [ipCounter_onConnection (h.kMaxIp.trans_ne hne), hnumber hne]
    by_cases hip : ip' = ip
    · subst hip
      simp [openOf]
    · have hsame : ip ≠ ip' := Ne.symm hip
      simp [hip, h.ipCounter hne, openOf, hsame]
  case all =>
    -- an admitted connection found the counter of all within the limit
    have hall := h.all hpos
    have hle := admitted_le_length s
    have hcounter := h.counter
    have hmax := h.kMaxAll
    cases hr : (s.monitor.onConnection ip).2 with
    | false => simpa [admitted] using hall
    | true =>
      have hlimit := (hlimits hr).1
      have hcount : s.admitted = s.opened.countP fun c => c.admitted := rfl
      simp only [admitted, List.countP_cons, if_true]
      omega
  case perIp =>
    have hold := h.perIp hpos ip' hip'
    by_cases hip : ip' = ip
    · subst hip
      cases hr : (s.monitor.onConnection ip').2 with
      | false => simpa [admittedOf] using hold
      | true =>
        have hmax := h.kMaxIp
        have hlimit := (hlimits hr).2.1 (by omega) fun hmem => hip' (h.allowed hmem)
        have hle := admittedOf_le_openOf s ip'
        have hopen := hnumber (by omega)
        have hcount : s.admittedOf ip' =
          s.opened.countP fun c => c.ip = ip' ∧ c.admitted := rfl
        simp only [admittedOf, List.countP_cons, true_and, decide_true, if_true]
        omega
    · have hsame : ip ≠ ip' := Ne.symm hip
      simpa [admittedOf, hsame] using hold
  case denied =>
    rcases List.mem_append.mp ha with ha | ha
    · exact h.denied a ha hadmitted
    · rw [List.mem_singleton] at ha
      subst ha
      exact decide_eq_false (hlimits hadmitted).2.2

theorem Inv.onClose (h : Inv maxAll maxIp s) {c : Conn} (hc : c ∈ s.opened) :
    ∃ m, s.monitor.onClose c.ip = some m ∧
      Inv maxAll maxIp { s with monitor := m, opened := s.opened.erase c } := by
  have hperm := List.perm_cons_erase hc
  have hlen : (s.opened.erase c).length + 1 = s.opened.length := hperm.length_eq.symm
  have hopen (ip : Ip) : s.openOf ip =
      (s.opened.erase c).countP (fun c => c.ip = ip) + if c.ip = ip then 1 else 0 := by
    rw [openOf, hperm.countP_eq, List.countP_cons]
    simp
  have hall : (s.opened.erase c).countP (fun c => c.admitted) ≤ s.admitted :=
    List.erase_sublist.countP_le
  have hip (ip : Ip) : (s.opened.erase c).countP (fun c => c.ip = ip ∧ c.admitted) ≤
      s.admittedOf ip := List.erase_sublist.countP_le
  have hbelow : 0 ≤ maxAll →
      ((s.opened.erase c).countP (fun c => c.admitted) : Int) ≤ maxAll := by
    intro hpos
    have := h.all hpos
    omega
  have hbelowIp : 0 < maxIp → ∀ ip, ip ∉ s.allowedOnce →
      ((s.opened.erase c).countP (fun c => c.ip = ip ∧ c.admitted) : Int) ≤ maxIp := by
    intro hpos ip hnot
    have := h.perIp hpos ip hnot
    have := hip ip
    omega
  have hcounter : s.monitor.counter - 1 = (s.opened.erase c).length := by
    rw [h.counter]
    omega
  by_cases hne : maxIp = 0
  · refine ⟨{ s.monitor with counter := s.monitor.counter - 1 }, ?_, ?_⟩
    · rw [TcpMonitor.onClose, if_neg (by simp [h.kMaxIp, hne])]
    · exact ⟨h.kMaxAll, h.kMaxIp, h.allowed, h.asserted, hcounter, fun hnot => absurd hne hnot,
        hbelow, hbelowIp, h.denied⟩
  · have hself := hopen c.ip
    rw [if_pos rfl] at hself
    have hentry : s.monitor.ipCounter c.ip = some (s.openOf c.ip : Int) := by
      rw [h.ipCounter hne, if_neg (by omega)]
    refine ⟨{ s.monitor with
      ipCounter := Function.update s.monitor.ipCounter c.ip
        (if (s.openOf c.ip : Int) - 1 ≤ 0 then none else some ((s.openOf c.ip : Int) - 1))
      counter := s.monitor.counter - 1 }, ?_, ?_⟩
    · rw [TcpMonitor.onClose, if_pos (h.kMaxIp.trans_ne hne), hentry, Option.map_some]
    · refine ⟨h.kMaxAll, h.kMaxIp, h.allowed, h.asserted, hcounter, fun _ ip => ?_, hbelow,
        hbelowIp, h.denied⟩
      show Function.update s.monitor.ipCounter c.ip _ ip =
        if (s.opened.erase c).countP (fun c => c.ip = ip) = 0 then none
        else some ((s.opened.erase c).countP (fun c => c.ip = ip) : Int)
      by_cases hsame : ip = c.ip
      · subst hsame
        rw [Function.update_self, hself]
        generalize (s.opened.erase c).countP (fun c' => c'.ip = c.ip) = n
        by_cases hzero : n = 0
        · simp [hzero]
        · rw [if_neg (by omega), if_neg hzero]
          simp
      · rw [Function.update_of_ne hsame, h.ipCounter hne, hopen ip, if_neg (Ne.symm hsame),
          Nat.add_zero]

theorem Inv.step {a : Act} {t : Monitored} (h : Inv maxAll maxIp s) (hnext : s.next a = some t) :
    Inv maxAll maxIp t := by
  cases a with
  | onConnection ip =>
    cases hnext
    exact h.onConnection ip
  | onClose c =>
    simp only [next] at hnext
    split at hnext
    · rename_i hc
      obtain ⟨m, hclose, hinv⟩ := h.onClose hc
      rw [hclose] at hnext
      cases hnext
      exact hinv
    · cases hnext
  | addAllowIp ip =>
    cases hnext
    exact ⟨h.kMaxAll, h.kMaxIp, Finset.insert_subset_insert ip h.allowed, h.asserted, h.counter,
      h.ipCounter, h.all, fun hpos ip' hnot => h.perIp hpos ip' fun hmem =>
        hnot (Finset.mem_insert_of_mem hmem), h.denied⟩
  | deleteAllowIp ip =>
    cases hnext
    exact ⟨h.kMaxAll, h.kMaxIp, (Finset.erase_subset _ _).trans h.allowed, h.asserted, h.counter,
      h.ipCounter, h.all, h.perIp, h.denied⟩
  | addDenyIp ip =>
    cases hnext
    exact { h with }
  | deleteDenyIp ip =>
    cases hnext
    exact { h with }

end

/-- The counters, and the limits that they keep. -/
theorem connections_limited (maxAll maxIp : Int) (allow deny : Finset Ip) (s : Monitored)
    (hs : (system maxAll maxIp allow deny).Reachable s) : Limited maxAll maxIp s := by
  have h : Inv maxAll maxIp s := Machine.Reachable.invariant (inv_init maxAll maxIp allow deny)
    (fun _ _ _ _ h hnext => h.step hnext) hs
  exact ⟨h.asserted, h.counter, fun hpos => h.ipCounter (by omega), h.all, h.perIp, h.denied⟩

/-- Two connections of one ip are admitted, the third one is refused until one of
them is closed. -/
def thirdRefused : List Act :=
  [.onConnection ['a'], .onConnection ['a'], .onConnection ['a'], .onClose ⟨2, ['a'], false⟩,
    .onClose ⟨0, ['a'], true⟩, .onConnection ['a'], .addDenyIp ['b'], .onConnection ['b']]

theorem connections_limited_thirdRefused :
    ∃ s, (system 5 2 ∅ ∅).Reachable s ∧
      s.answers.map (·.admitted) = [true, true, false, true, false] ∧ Limited 5 2 s := by
  obtain ⟨s, hs, hanswers⟩ := Machine.exists_reachable_of_run (M := system 5 2 ∅ ∅) thirdRefused
    (fun s => s.answers.map (·.admitted) = [true, true, false, true, false]) (by decide +kernel)
  exact ⟨s, hs, hanswers, connections_limited 5 2 ∅ ∅ s hs⟩

end Monitored

end Voyager
