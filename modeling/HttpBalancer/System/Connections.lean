import HttpBalancer.Balancer.LoadBalancer
import HttpBalancer.Net.Delivery
import HttpBalancer.Server.HttpServer

/-! What a client of the server or of the load balancer is owed on one connection. -/

namespace HttpBalancer.System

open Net Server Balancer

theorem connection_served :
    (∀ (router : Router) (events : List (Unit × ClientCalls)),
      let r := (httpServer router).run .fresh events
      Served (fun req data => data = (router.response req).serialize) r.2 ∧
        Conveyed (responses r.2) (output r.2) r.1.unsent (∀ e ∈ events, NoHardError e.2.sends)) ∧
    (∀ events : List (UpstreamCalls × ClientCalls),
      let r := loadBalancer.run .fresh events
      Served (fun req data => ∃ upstream, data = (proxyRequest upstream req).1.data) r.2 ∧
        Conveyed (responses r.2) (output r.2) r.1.unsent (∀ e ∈ events, NoHardError e.2.sends)) := by
  have hr : Connection.fresh.Ready := Or.inr fresh_not_settled
  refine ⟨fun router events => ⟨?_, Service.run_conveyed (S := httpServer router) events⟩,
    fun events => ⟨?_, Service.run_conveyed (S := loadBalancer) events⟩⟩
  · exact Service.run_served (S := httpServer router) (fun _ _ => rfl) events hr
  · exact Service.run_served (S := loadBalancer) (fun upstream _ => ⟨upstream, rfl⟩) events hr

end HttpBalancer.System
