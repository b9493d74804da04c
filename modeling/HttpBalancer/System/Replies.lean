import HttpBalancer.System.Histories

/-! What the shipped server can say at all. `/api/echo` writes the target of the request into its body,
but it is reached by that one target only, so no byte of a client is ever sent back. -/

namespace HttpBalancer.System

open Net Server Balancer Lib

/-- The responses of the routes of `main`, before the `Connection` header is set. -/
def shipped (port : UInt16) : List HttpResponse :=
  [makeJsonResponse 200 (lit "OK") (lit "\x7b\"status\":\"ok\"\x7d"),
   makeJsonResponse 200 (lit "OK") (lit "\x7b\"server\":\"" ++ toDecimal port.toNat ++
     lit "\",\"message\":\"hello from worker node\"\x7d"),
   makeJsonResponse 200 (lit "OK") (lit "\x7b\"server\":\"" ++ toDecimal port.toNat ++
     lit "\",\"target\":\"" ++ lit "/api/echo" ++ lit "\"\x7d"),
   notFound, notAllowed]

def replies (port : UInt16) : List Bytes :=
  badRequest.serialize :: (shipped port).flatMap fun r =>
    [{ r with keepAlive := true }.serialize, { r with keepAlive := false }.serialize]

lemma dispatch_shipped (port : UInt16) (req : HttpRequest) : (routes port).dispatch req ∈ shipped port := by
  have hget : Router.lookup (routes port).getRoutes req ∈ shipped port := by
    simp only [Router.lookup, routes, Router.get]
    by_cases he : req.target = lit "/api/echo"
    · rw [he, Function.update_self]
      simp [shipped, he]
    · rw [Function.update_of_ne he]
      by_cases hr : req.target = lit "/"
      · rw [hr, Function.update_self]
        simp [shipped]
      · rw [Function.update_of_ne hr]
        by_cases hh : req.target = lit "/health"
        · rw [hh, Function.update_self]
          simp [shipped]
        · rw [Function.update_of_ne hh]
          simp [shipped]
  rw [Router.dispatch]
  split_ifs
  · exact hget
  · simp [Router.lookup, routes, Router.get, shipped]
  · simp [shipped]

lemma response_mem (port : UInt16) (req : HttpRequest) :
    ((routes port).response req).serialize ∈ replies port := by
  refine List.mem_cons_of_mem _ (List.mem_flatMap.mpr ⟨_, dispatch_shipped port req, ?_⟩)
  rw [Router.response]
  cases req.keepAlive <;> simp

lemma served_replies {port : UInt16} {log : List Action}
    (h : Served (fun req data => data = ((routes port).response req).serialize) log) :
    ∀ data ∈ responses log, data ∈ replies port := by
  induction h with
  | nil => simp [responses]
  | accepted _ _ ih | rearmed _ _ ih | waiting _ _ ih => simpa [responses] using ih
  | error _ _ ih =>
    simp only [responses, List.filterMap_cons, List.mem_cons]
    rintro data (rfl | hd)
    · exact List.mem_cons_self
    · exact ih data hd
  | complete _ ha _ ih =>
    simp only [responses, List.filterMap_cons, List.mem_cons]
    rintro data (rfl | hd)
    · exact ha ▸ response_mem port _
    · exact ih data hd

/-- Whatever the clients send, the network does and the threads interleave, each client of the shipped
server receives pieces of its eleven messages. -/
theorem nothing_reflected (setup : Setup) (port : UInt16) (rec : Recorded (httpServer (routes port)))
    (h : Recorded.Reachable setup rec) (i : ConnId) :
    (∀ data ∈ responses (rec.log i), data ∈ replies port) ∧
      ∃ pieces : List Bytes, output (rec.log i) = pieces.flatten ∧
        ∀ p ∈ pieces, ∃ m ∈ replies port, p <+: m := by
  obtain ⟨-, hr⟩ := Recorded.reachable_replays h
  have hs := served_replies (hr.served (fun _ _ => rfl) i)
  obtain ⟨pieces, ho, hp⟩ := (Service.run_conveyed (rec.history i)).sent
  rw [← hr.replayed] at ho hp
  exact ⟨hs, pieces, ho, fun p hm => (hp p hm).imp fun q hq => ⟨hs q hq.1, hq.2⟩⟩

theorem nothing_reflected_hostile :
    ∃ rec : Recorded (httpServer (routes 8080)), Recorded.Reachable ⟨.kqueue, 3, 4⟩ rec ∧
      received (rec.log 0) = [lit "GET /api/echo?x=\"\r\nX: <b> HTTP/1.1\r\n\r\n"] ∧ output (rec.log 0) ≠ [] ∧
      ∃ pieces : List Bytes, output (rec.log 0) = pieces.flatten ∧
        ∀ p ∈ pieces, ∃ m ∈ replies 8080, p <+: m := by
  have hrun : ∃ rec : Recorded (httpServer (routes 8080)), Recorded.Reachable ⟨.kqueue, 3, 4⟩ rec ∧
      received (rec.log 0) = [lit "GET /api/echo?x=\"\r\nX: <b> HTTP/1.1\r\n\r\n"] ∧ output (rec.log 0) ≠ [] :=
    Transitions.exists_reachable [.swapRearms, .wait [⟨3, 1, false⟩], .dispatch, .accept 7, .acceptDone,
      .swapRearms, .wait [⟨7, 1, false⟩], .dispatch, .start,
      .finish 0 () ⟨.received (lit "GET /api/echo?x=\"\r\nX: <b> HTTP/1.1\r\n\r\n"), [.sent 30, .failed]⟩]
      (by decide +kernel)
  obtain ⟨rec, hr, hin, hout⟩ := hrun
  exact ⟨rec, hr, hin, hout, (nothing_reflected ⟨.kqueue, 3, 4⟩ 8080 rec hr 0).2⟩

end HttpBalancer.System
