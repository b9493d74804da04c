import HttpBalancer.Net.ResponseRoundTrip
import HttpBalancer.Net.Service

/-! The HTTP server: its router, the routes of `main`, and how it answers a request. -/

namespace HttpBalancer.Server

open Net

abbrev Handler := HttpRequest → HttpResponse

structure Router where
  getRoutes : Bytes → Option Handler := fun _ => none
  postRoutes : Bytes → Option Handler := fun _ => none

def Router.get (r : Router) (path : Bytes) (h : Handler) : Router :=
  { r with getRoutes := Function.update r.getRoutes path (some h) }

def Router.post (r : Router) (path : Bytes) (h : Handler) : Router :=
  { r with postRoutes := Function.update r.postRoutes path (some h) }

def notAllowed : HttpResponse :=
  makeJsonResponse 405 (lit "Method Not Allowed") (lit "\x7b\"error\":\"method not allowed\"\x7d")

def notFound : HttpResponse :=
  makeJsonResponse 404 (lit "Not Found") (lit "\x7b\"error\":\"not found\"\x7d")

def Router.lookup (table : Bytes → Option Handler) (req : HttpRequest) : HttpResponse :=
  match table req.target with
  | none => notFound
  | some h => h req

def Router.dispatch (r : Router) (req : HttpRequest) : HttpResponse :=
  if req.method = lit "GET" then lookup r.getRoutes req
  else if req.method = lit "POST" then lookup r.postRoutes req
  else notAllowed

def routes (port : UInt16) : Router :=
  let router : Router := {}
  let router := router.get (lit "/health") fun _ =>
    makeJsonResponse 200 (lit "OK") (lit "\x7b\"status\":\"ok\"\x7d")
  let router := router.get (lit "/") fun _ =>
    makeJsonResponse 200 (lit "OK") (lit "\x7b\"server\":\"" ++ toDecimal port.toNat ++
      lit "\",\"message\":\"hello from worker node\"\x7d")
  router.get (lit "/api/echo") fun req =>
    makeJsonResponse 200 (lit "OK") (lit "\x7b\"server\":\"" ++ toDecimal port.toNat ++
      lit "\",\"target\":\"" ++ req.target ++ lit "\"\x7d")

def Router.response (router : Router) (req : HttpRequest) : HttpResponse :=
  { router.dispatch req with keepAlive := req.keepAlive }

-- `req` is a reference into the parser, so the re-arm after the reset reads the fresh request
def httpServer (router : Router) : Service where
  Env := Unit
  answer _ req := ⟨(router.response req).serialize, req.keepAlive⟩
  rearm conn := keepAliveAction conn.parser.msg.keepAlive

def handleConnectionEvent (router : Router) (io : ClientCalls) (conn : Connection) :
    Connection × List Action :=
  (httpServer router).handleEvent () io conn

lemma toDecimal_port (port : UInt16) : (toDecimal port.toNat).length ≤ 5 := by
  have hp := port.toNat_lt
  have hi : ¬ ((port.toNat : ℤ) < 0) := by omega
  simp only [toDecimal, hi, if_false, Int.natAbs_natCast, Lib.Decimal.numeral, List.length_map]
  exact Nat.toDigits_length 10 _ 5 (by decide) (by omega)

lemma routes_get (port : UInt16) (target : Bytes) :
    (routes port).getRoutes target = none ∨ ∃ h json, (routes port).getRoutes target = some h ∧
      json.length ≤ 200 ∧ ∀ req : HttpRequest, req.target = target →
        h req = makeJsonResponse 200 (lit "OK") json := by
  have hp := toDecimal_port port
  have hlen : ∀ a b : Bytes, a.length ≤ 60 → b.length ≤ 60 →
      (a ++ toDecimal port.toNat ++ b).length ≤ 200 := by
    intro a b ha hb
    simp only [List.length_append]
    omega
  simp only [routes, Router.get]
  by_cases he : target = lit "/api/echo"
  · subst he
    refine Or.inr ⟨_, lit "\x7b\"server\":\"" ++ toDecimal port.toNat ++
      (lit "\",\"target\":\"" ++ (lit "/api/echo" ++ lit "\"\x7d")), Function.update_self ..,
      hlen _ _ (by decide) (by decide), fun req hr => ?_⟩
    rw [hr, List.append_assoc, List.append_assoc]
  · rw [Function.update_of_ne he]
    by_cases hr : target = lit "/"
    · subst hr
      exact Or.inr ⟨_, _, Function.update_self .., hlen _ _ (by decide) (by decide), fun _ _ => rfl⟩
    · rw [Function.update_of_ne hr]
      by_cases hh : target = lit "/health"
      · subst hh
        exact Or.inr ⟨_, _, Function.update_self .., by decide, fun _ _ => rfl⟩
      · exact Or.inl (Function.update_of_ne hh _ _)

lemma routes_dispatch_congr (port : UInt16) {req req' : HttpRequest} (hm : req'.method = req.method)
    (ht : req'.target = req.target) : (routes port).dispatch req' = (routes port).dispatch req := by
  simp only [Router.dispatch, Router.lookup, hm, ht]
  rcases routes_get port req.target with hn | ⟨h, json, hh, -, hr⟩
  · rw [hn]
    rfl
  · simp only [hh, hr req rfl, hr req' ht]
    rfl

lemma routes_serializable (port : UInt16) (req : HttpRequest) :
    Serializable ((routes port).response req) := by
  apply Serializable.withKeepAlive
  rw [Router.dispatch]
  split_ifs
  · rw [Router.lookup]
    rcases routes_get port req.target with hn | ⟨h, json, hh, hl, hr⟩
    · rw [hn]
      exact makeJsonResponse_serializable 404 (by decide) (by decide)
    · rw [hh]
      dsimp only
      rw [hr req rfl]
      exact makeJsonResponse_serializable 200 (by decide) (hl.trans (by decide))
  · exact makeJsonResponse_serializable 404 (by decide) (by decide)
  · exact makeJsonResponse_serializable 405 (by decide) (by decide)

end HttpBalancer.Server
