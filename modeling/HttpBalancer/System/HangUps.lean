import HttpBalancer.System.Ownership

/-! The error branch of the reactor under epoll, which reports hangups even on a descriptor whose
interest is off. The connection is then erased under the worker that owns it. -/

namespace HttpBalancer.System

open Net Server Balancer Lib

instance {S : Service} (st : State) : DecidablePred (Quiet (S := S) st)
  | .wait events =>
    inferInstanceAs (Decidable (∀ ev ∈ events, ev.error = true → st.mask ev.fd ≠ 0))
  | .swapRearms | .applyRearm | .dispatch | .accept _ | .acceptDone | .start | .finish _ _ _ =>
    inferInstanceAs (Decidable True)

lemma epoll_inv {S : Service} {listenFd : Fd} {numThreads : ℕ} {st : State}
    (h : Reachable S ⟨.epoll, listenFd, numThreads⟩ Quiet st) :
    Inv ⟨.epoll, listenFd, numThreads⟩ st :=
  Transitions.Reachable.invariant Inv.initial (fun _ _ _ hi hq hs => inv_step hi (Or.inr hq) hs) h

/-- As long as no hangup is reported on an unwatched descriptor, no connection of the server or of the
load balancer is erased while something refers to it. -/
theorem never_erased_while_owned (listenFd : Fd) (numThreads : ℕ) :
    (∀ router st, Reachable (httpServer router) ⟨.epoll, listenFd, numThreads⟩ Quiet st → Live st) ∧
    (∀ st, Reachable loadBalancer ⟨.epoll, listenFd, numThreads⟩ Quiet st → Live st) :=
  ⟨fun _ _ h => (epoll_inv h).alive, fun _ h => (epoll_inv h).alive⟩

theorem never_erased_while_owned_queued :
    ∃ st, Reachable (httpServer (routes 8080)) ⟨.epoll, 3, 4⟩ Quiet st ∧
      st.tasks = [⟨7, 0⟩] ∧ st.idAt 8 = none ∧ Live st := by
  obtain ⟨st, hr, ht, hi⟩ : ∃ st, Reachable (httpServer (routes 8080)) ⟨.epoll, 3, 4⟩ Quiet st ∧
      st.tasks = [⟨7, 0⟩] ∧ st.idAt 8 = none :=
    Transitions.exists_reachable [.swapRearms, .wait [⟨3, 1, false⟩], .dispatch, .accept 7, .accept 8,
      .acceptDone, .swapRearms, .wait [⟨7, 1, false⟩, ⟨8, 1, true⟩], .dispatch, .dispatch]
      (by decide +kernel)
  exact ⟨st, hr, ht, hi, (never_erased_while_owned 3 4).1 _ st hr⟩

/-- A hangup on a connection whose task is queued erases it; a new connection on the same descriptor
then gets the old one's task. -/
theorem erased_while_owned :
    (∃ st, Reachable (httpServer (routes 8080)) ⟨.epoll, 3, 4⟩ (fun _ _ => True) st ∧
      st.tasks = [⟨7, 0⟩] ∧ st.idAt 7 = none) ∧
    (∃ st, Reachable (httpServer (routes 8080)) ⟨.epoll, 3, 4⟩ (fun _ _ => True) st ∧
      st.running = [⟨⟨7, 0⟩, 1⟩] ∧ st.idAt 7 = some 1) := by
  refine ⟨Transitions.exists_reachable [.swapRearms, .wait [⟨3, 1, false⟩], .dispatch, .accept 7,
      .acceptDone, .swapRearms, .wait [⟨7, 1, false⟩], .dispatch, .swapRearms, .wait [⟨7, 0, true⟩],
      .dispatch] (by decide +kernel),
    Transitions.exists_reachable [.swapRearms, .wait [⟨3, 1, false⟩], .dispatch, .accept 7, .acceptDone,
      .swapRearms, .wait [⟨7, 1, false⟩], .dispatch, .swapRearms, .wait [⟨7, 0, true⟩, ⟨3, 1, false⟩],
      .dispatch, .dispatch, .accept 7, .acceptDone, .start] (by decide +kernel)⟩

end HttpBalancer.System
