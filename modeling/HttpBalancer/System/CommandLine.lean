import HttpBalancer.Balancer.Upstreams
import HttpBalancer.Lib.Options

/-! The command lines of the two programs, and the ports, threads and upstreams they start with. -/

namespace HttpBalancer.System

open Net Balancer Lib Options

def parsePort (s : Bytes) : UInt16 := (atoi s).toUInt32.toUInt16

def parseThreads (s : Bytes) : UInt64 := (atoi s).toInt64.toUInt64

def defaultThreads (cores : UInt64) : UInt64 := if cores = 0 then 4 else cores

structure ServerSettings where
  port : UInt16
  numThreads : UInt64
  deriving DecidableEq

def ServerSettings.default (cores : UInt64) : ServerSettings := ⟨9001, defaultThreads cores⟩

/-- The loop over `argv` from its second entry on. -/
def ServerSettings.scan (o : ServerSettings) : List Bytes → ServerSettings
  | name :: value :: rest =>
    if cStr name = lit "--port" then scan { o with port := parsePort value } rest
    else if cStr name = lit "--threads" then scan { o with numThreads := parseThreads value } rest
    else scan o (value :: rest)
  | [_] | [] => o

structure BalancerSettings where
  port : UInt16
  numThreads : UInt64
  healthIntervalMs : Int32
  upstreamsCsv : Bytes
  deriving DecidableEq

def BalancerSettings.default (cores : UInt64) : BalancerSettings :=
  ⟨8080, defaultThreads cores, 2000, lit "127.0.0.1:9001,127.0.0.1:9002,127.0.0.1:9003"⟩

def BalancerSettings.scan (o : BalancerSettings) : List Bytes → BalancerSettings
  | name :: value :: rest =>
    if cStr name = lit "--port" then scan { o with port := parsePort value } rest
    else if cStr name = lit "--threads" then scan { o with numThreads := parseThreads value } rest
    else if cStr name = lit "--health-interval-ms" then scan { o with healthIntervalMs := atoi value } rest
    else if cStr name = lit "--upstreams" then scan { o with upstreamsCsv := cStr value } rest
    else scan o (value :: rest)
  | [_] | [] => o

inductive Opt
  | port
  | threads
  | healthIntervalMs
  | upstreams
  deriving DecidableEq

def Opt.name : Opt → Bytes
  | .port => lit "--port"
  | .threads => lit "--threads"
  | .healthIntervalMs => lit "--health-interval-ms"
  | .upstreams => lit "--upstreams"

def serverOption (word : Bytes) : Option Opt :=
  if cStr word = lit "--port" then some .port
  else if cStr word = lit "--threads" then some .threads
  else none

def balancerOption (word : Bytes) : Option Opt :=
  if cStr word = lit "--port" then some .port
  else if cStr word = lit "--threads" then some .threads
  else if cStr word = lit "--health-interval-ms" then some .healthIntervalMs
  else if cStr word = lit "--upstreams" then some .upstreams
  else none

def ServerSettings.set (o : ServerSettings) : Opt × Bytes → ServerSettings
  | (.port, value) => { o with port := parsePort value }
  | (.threads, value) => { o with numThreads := parseThreads value }
  | _ => o

def BalancerSettings.set (o : BalancerSettings) : Opt × Bytes → BalancerSettings
  | (.port, value) => { o with port := parsePort value }
  | (.threads, value) => { o with numThreads := parseThreads value }
  | (.healthIntervalMs, value) => { o with healthIntervalMs := atoi value }
  | (.upstreams, value) => { o with upstreamsCsv := cStr value }

lemma ServerSettings.scan_eq (o : ServerSettings) (args : List Bytes) :
    o.scan args = (assignments serverOption args).foldl ServerSettings.set o := by
  induction args using assignments.induct serverOption generalizing o with
  | case1 name value rest k hk ih =>
    rw [scan, assignments, hk, List.foldl_cons]
    rw [serverOption] at hk
    split_ifs at hk ⊢ <;> cases hk <;> exact ih _
  | case2 name value rest hk ih =>
    rw [scan, assignments, hk]
    rw [serverOption] at hk
    split_ifs at hk ⊢
    exact ih o
  | case3 | case4 => rfl

lemma BalancerSettings.scan_eq (o : BalancerSettings) (args : List Bytes) :
    o.scan args = (assignments balancerOption args).foldl BalancerSettings.set o := by
  induction args using assignments.induct balancerOption generalizing o with
  | case1 name value rest k hk ih =>
    rw [scan, assignments, hk, List.foldl_cons]
    rw [balancerOption] at hk
    split_ifs at hk ⊢ <;> cases hk <;> exact ih _
  | case2 name value rest hk ih =>
    rw [scan, assignments, hk]
    rw [balancerOption] at hk
    split_ifs at hk ⊢
    exact ih o
  | case3 | case4 => rfl

lemma balancerOption_name (k : Opt) : balancerOption k.name = some k := by
  cases k <;> decide

lemma atoi_toDecimal (i : Int32) : atoi (toDecimal i.toInt) = i := by
  have hl := i.le_toInt
  have hu := i.toInt_lt
  rw [atoi, strtol_toDecimal (by simp only [longMax]; omega) (by simp only [longMax]; omega)]
  simp

lemma parsePort_toDecimal (p : UInt16) : parsePort (toDecimal p.toNat) = p := by
  have hp := p.toNat_lt
  rw [parsePort, atoi, strtol_toDecimal (by simp only [longMax]; omega) (by simp only [longMax]; omega),
    Option.getD_some, Int32.ofInt_eq_ofNat]
  simp

lemma parseThreads_toDecimal {n : ℕ} (h : n < 2 ^ 31) : parseThreads (toDecimal n) = n.toUInt64 := by
  rw [parseThreads, atoi, strtol_toDecimal (by simp only [longMax]; omega) (by simp only [longMax]; omega),
    Option.getD_some, Int32.ofInt_eq_ofNat, Int32.toInt64_ofNat' (by rw [Int32.toInt_maxValue]; omega)]
  simp

/-- What someone who starts the balancer writes down. -/
structure Deployment where
  port : UInt16
  numThreads : ℕ
  healthIntervalMs : Int32
  upstreams : List Upstream
  threads_lt : numThreads < 2 ^ 31
  plain : ∀ u ∈ upstreams, 44 ∉ u.host ∧ 58 ∉ u.host ∧ 0 ∉ u.host

def Deployment.options (d : Deployment) : List (Opt × Bytes) :=
  [(.port, toDecimal d.port.toNat), (.threads, toDecimal d.numThreads),
    (.healthIntervalMs, toDecimal d.healthIntervalMs.toInt), (.upstreams, joinUpstreams d.upstreams)]

def words (options : List (Opt × Bytes)) : List Bytes := options.flatMap fun p => [p.1.name, p.2]

lemma not_mem_intercalate {b : UInt8} {ls : List Bytes} (hb : b ≠ 44) (h : ∀ l ∈ ls, b ∉ l) :
    b ∉ [44].intercalate ls := by
  induction ls with
  | nil => simp
  | cons l ls ih =>
    have hl : b ∉ l := h l (by simp)
    have hls : b ∉ [44].intercalate ls := ih fun l' hl' => h l' (by simp [hl'])
    cases ls with
    | nil => simpa using hl
    | cons l' ls =>
      rw [List.intercalate_cons_cons]
      simp [hl, hls, hb]

lemma joinUpstreams_cStr {us : List Upstream} (h : ∀ u ∈ us, 0 ∉ u.host) :
    cStr (joinUpstreams us) = joinUpstreams us := by
  apply takeWhile_ne_self
  apply not_mem_intercalate (by decide)
  intro l hl hm
  obtain ⟨u, hu, rfl⟩ := List.mem_map.mp hl
  rcases List.mem_append.mp hm with hm | hm
  · exact h u hu hm
  · rcases List.mem_cons.mp hm with hm | hm
    · exact absurd hm (by decide)
    · exact (isDigit_ne (Decimal.isDigit_of_mem_numeral hm)).1 rfl

lemma ServerSettings.scan_last (o : ServerSettings) (args : List Bytes) :
    o.scan args = ⟨((last .port (assignments serverOption args)).map parsePort).getD o.port,
      ((last .threads (assignments serverOption args)).map parseThreads).getD o.numThreads⟩ := by
  have hport := foldl_field set port parsePort .port (fun _ _ => rfl)
    (fun _ k _ hk => by cases k <;> first | rfl | exact absurd rfl hk) (assignments serverOption args) o
  have hthreads := foldl_field set numThreads parseThreads .threads (fun _ _ => rfl)
    (fun _ k _ hk => by cases k <;> first | rfl | exact absurd rfl hk) (assignments serverOption args) o
  rw [scan_eq, ← hport, ← hthreads]

lemma BalancerSettings.scan_last (o : BalancerSettings) (args : List Bytes) :
    o.scan args = ⟨((last .port (assignments balancerOption args)).map parsePort).getD o.port,
      ((last .threads (assignments balancerOption args)).map parseThreads).getD o.numThreads,
      ((last .healthIntervalMs (assignments balancerOption args)).map atoi).getD o.healthIntervalMs,
      ((last .upstreams (assignments balancerOption args)).map cStr).getD o.upstreamsCsv⟩ := by
  have hother : ∀ {β : Type} (get : BalancerSettings → β) (read : Bytes → β) (k : Opt),
      (∀ o v, get (set o (k, v)) = read v) → (∀ o k' v, k' ≠ k → get (set o (k', v)) = get o) →
      ((last k (assignments balancerOption args)).map read).getD (get o) = get (o.scan args) := by
    intro β get read k hset hother
    rw [scan_eq, foldl_field set get read k hset hother]
  rw [hother port parsePort .port (fun _ _ => rfl), hother numThreads parseThreads .threads (fun _ _ => rfl),
    hother healthIntervalMs atoi .healthIntervalMs (fun _ _ => rfl),
    hother upstreamsCsv cStr .upstreams (fun _ _ => rfl)]
  all_goals
    intro o k v hk
    cases k <;> first | rfl | exact absurd rfl hk

lemma last_words {known : Bytes → Option Opt} {options : List (Opt × Bytes)}
    (hn : ∀ p ∈ options, known p.1.name = some p.1) (hd : (options.map Prod.fst).Nodup)
    {before after : List Bytes} (hb : complete known before = true) (ha : after.length ≤ 1) {k : Opt}
    {v : Bytes} (h : (k, v) ∈ options) :
    last k (assignments known (before ++ words options ++ after)) = some v := by
  rw [List.append_assoc, assignments_append hb, words, assignments_append (complete_pairs hn),
    assignments_pairs hn, assignments_short ha, List.append_nil, last_append, last_eq_some h hd, Option.some_or]

/-- Whatever complete options come before and whatever single word after, and in whatever order the options
are written: the balancer starts with the port, threads, interval and upstreams written down, and a server
told its own port in the same way listens where the balancer looks for it. -/
theorem started_as_written (cores : UInt64) (d : Deployment) (before after : List Bytes)
    (hb : complete balancerOption before = true) (ha : after.length ≤ 1) (options : List (Opt × Bytes))
    (hp : options.Perm d.options) :
    let o := (BalancerSettings.default cores).scan (before ++ words options ++ after)
    o.port = d.port ∧ o.numThreads = d.numThreads.toUInt64 ∧ o.healthIntervalMs = d.healthIntervalMs ∧
    parseUpstreams o.upstreamsCsv = d.upstreams ∧
    ∀ u ∈ d.upstreams, ∀ (cores : UInt64) (before after : List Bytes), complete serverOption before = true →
      after.length ≤ 1 → ((ServerSettings.default cores).scan
        (before ++ words [(.port, toDecimal u.port.toNat)] ++ after)).port = u.port := by
  have hd : (options.map Prod.fst).Nodup := (hp.map Prod.fst).nodup_iff.mpr (by simp [Deployment.options])
  have hlast : ∀ k v, (k, v) ∈ d.options →
      last k (assignments balancerOption (before ++ words options ++ after)) = some v :=
    fun k v h => last_words (fun p _ => balancerOption_name p.1) hd hb ha (hp.mem_iff.mpr h)
  refine ⟨?_, ?_, ?_, ?_, fun u _ cores before after hb ha => ?_⟩
  · rw [BalancerSettings.scan_last, hlast .port (toDecimal d.port.toNat) (by simp [Deployment.options])]
    exact parsePort_toDecimal d.port
  · rw [BalancerSettings.scan_last, hlast .threads (toDecimal d.numThreads) (by simp [Deployment.options])]
    exact parseThreads_toDecimal d.threads_lt
  · rw [BalancerSettings.scan_last,
      hlast .healthIntervalMs (toDecimal d.healthIntervalMs.toInt) (by simp [Deployment.options])]
    exact atoi_toDecimal d.healthIntervalMs
  · rw [BalancerSettings.scan_last, hlast .upstreams (joinUpstreams d.upstreams) (by simp [Deployment.options])]
    change parseUpstreams (cStr (joinUpstreams d.upstreams)) = d.upstreams
    rw [joinUpstreams_cStr fun u hu => (d.plain u hu).2.2,
      parseUpstreams_join fun u hu => ⟨(d.plain u hu).1, (d.plain u hu).2.1⟩]
  · rw [ServerSettings.scan_last, last_words (by simp; decide) (by simp) hb ha (List.mem_singleton_self _)]
    exact parsePort_toDecimal u.port

theorem started_as_written_demo :
    let d : Deployment :=
      ⟨8080, 4, 500, [⟨lit "127.0.0.1", 9001⟩, ⟨lit "127.0.0.1", 9002⟩], by decide, by decide⟩
    let o := (BalancerSettings.default 16).scan
      ([lit "-v", lit "--port", lit "--threads"] ++ words d.options.reverse ++ [lit "--upstreams"])
    o.port = 8080 ∧ o.numThreads = 4 ∧ parseUpstreams o.upstreamsCsv = d.upstreams ∧
      ((ServerSettings.default 16).scan ([] ++ words [(.port, toDecimal 9002)] ++ [])).port = 9002 := by
  intro d o
  obtain ⟨hp, ht, -, hu, hs⟩ := started_as_written 16 d [lit "-v", lit "--port", lit "--threads"]
    [lit "--upstreams"] (by decide) (by decide) d.options.reverse (List.reverse_perm _)
  exact ⟨hp, ht, hu, hs ⟨lit "127.0.0.1", 9002⟩ (by decide) 16 [] [] rfl (by decide)⟩

-- an option takes the next word even if that is an option, and `atoi` makes 0 of it
example : (ServerSettings.default 8).scan [lit "--threads", lit "--port", lit "9002"] = ⟨9001, 0⟩ := by
  decide +kernel

end HttpBalancer.System
