import Voyager.KernelPollers
import Voyager.TablePollers

/-!
The four pollers under the same calls. Which of them a build uses is decided by
the platform, so nothing above `EventPoller` may depend on it.
-/
namespace Voyager.EventPoller

open Lib.Runs

/-- `calls` are the calls made so far, so this is the state after each of them. -/
theorem pollers_agree (calls : List (Fd × Op)) (t : Usage)
    (hrun : usage.run usage.init calls = some t) :
    Agrees EventPoll.poller calls t ∧ Agrees EventEpoll.poller calls t ∧
      Agrees EventKqueue.poller calls t ∧
      ((∀ c ∈ calls, c.1 < EventSelect.fdSetSize) → Agrees EventSelect.poller calls t) := by
  refine ⟨?_, ?_, ?_, ?_⟩
  · exact EventPoll.tracks.agrees (fun _ _ => trivial) hrun
  · exact EventEpoll.tracks.agrees (fun _ _ => trivial) hrun
  · exact EventKqueue.tracks.agrees (fun _ _ => trivial) hrun
  · intro hfds
    exact EventSelect.tracks.agrees hfds hrun

/-- A listener, and a connection that was written to and is gone: its slot in the
table of poll(2) was not the last one. -/
def listenerAndConnection : List (Fd × Op) :=
  [(4, .enableRead), (4, .enableWrite), (3, .enableRead), (4, .disableWrite), (4, .disableAll),
    (4, .removeEvents)]

theorem pollers_agree_listenerAndConnection :
    ∃ t, usage.run usage.init listenerAndConnection = some t ∧
      t.phase 4 = .removed ∧ (t.dispatch 3).isReading = true ∧
      Agrees EventPoll.poller listenerAndConnection t ∧
      Agrees EventEpoll.poller listenerAndConnection t ∧
      Agrees EventKqueue.poller listenerAndConnection t ∧
      Agrees EventSelect.poller listenerAndConnection t := by
  refine ⟨_, rfl, rfl, rfl, ?_⟩
  obtain ⟨hpoll, hepoll, hkqueue, hselect⟩ := pollers_agree listenerAndConnection _ rfl
  exact ⟨hpoll, hepoll, hkqueue, hselect (by decide)⟩

end Voyager.EventPoller
