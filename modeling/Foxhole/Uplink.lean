import Foxhole.Handoff
import Foxhole.Lib.Best

/-! The uplink of the router among the interfaces of netifd: remote.uc. -/
namespace Foxhole.Remote
open Check Text Address Best

/-- The code the source dies with, and the exceptions of the interpreter itself. -/
inductive Failure where
  | networkUnavailable | publicAddressRequired | notAnObject
deriving DecidableEq

inductive TableId where
  | number (n : ℤ)
  | name (t : Text)
deriving DecidableEq

structure Route where
  target : Field Text
  mask : Field ℤ
  table : Field TableId
  metric : Field ℤ
deriving DecidableEq

/-- The status of an interface. `up` is what comes of `up == true`, a device that is false or
zero is `missing`, and an item of a list that is no object is `none`. -/
structure Interface where
  up : Bool
  proto : Field Text
  l3Device : Field Text
  device : Field Text
  route : Field (List (Option Route))
  metric : Field ℤ
  ipv4Address : List (Option (Field Text))
deriving DecidableEq

structure Uplink where
  publicIpv4Available : Option Bool
  address : Option Text
deriving DecidableEq

variable {inet : Inet} {status other : Interface} {a : Text} {m n : ℤ}

/-- The items of `ipv4-address` in turn. -/
def firstPublic (inet : Inet) : List (Option (Field Text)) → Except Failure Text
  | [] => .error .publicAddressRequired
  | none :: _ => .error .notAnObject
  | some (.value address) :: rest =>
    if Handoff.publicAddress inet address = true ∧
        (inet.iptoarr address).map (·.bytes.length) = some 4 then .ok address
    else firstPublic inet rest
  | some _ :: rest => firstPublic inet rest

def wanAddress (inet : Inet) (status : Interface) : Except Failure Text :=
  if status.up = true then firstPublic inet status.ipv4Address
  else .error .publicAddressRequired

def protos : List Text :=
  ["dhcp", "static", "pppoe", "ppp", "3g", "qmi", "mbim", "ncm", "wwan", "modemmanager"].map
    String.toList

/-- `^[A-Za-z0-9_.:-]{1,32}$` -/
def deviceShape : Regex Char :=
  let c := Regex.cls fun c => isAlnum c || c ∈ ['_', '.', ':', '-']
  .seq c (.upTo 31 c)

/-- `^(tun|tap|wg|ipsec|gre|sit|tailscale|zerotier)` -/
def tunnels : List Text :=
  ["tun", "tap", "wg", "ipsec", "gre", "sit", "tailscale", "zerotier"].map String.toList

/-- `status.l3_device || status.device || ''` -/
def Interface.deviceName (status : Interface) : Field Text :=
  match status.l3Device with
  | .missing | .value [] =>
    match status.device with
    | .missing => .value []
    | device => device
  | device => device

def Interface.eligible (status : Interface) : Bool :=
  status.up && status.proto.value?.any (· ∈ protos) &&
  status.deviceName.value?.any fun device =>
    deviceShape.accepts device && !tunnels.any (·.isPrefixOf device)

/-- A default route of the main table. -/
def Route.isMain (route : Route) : Bool :=
  route.target = .value "0.0.0.0".toList && route.mask = .value 0 &&
  (route.table = .missing ||
    route.table.value?.any (· ∈ [.number 0, .number 254, .name "main".toList]))

/-- `route.metric ?? status.metric ?? 0` -/
def Interface.metricOf (status : Interface) (route : Route) : Field ℤ :=
  match route.metric with
  | .missing =>
    match status.metric with
    | .missing => .value 0
    | metric => metric
  | metric => metric

/-- What a round over the routes makes of its route; `none` where it goes on to the next. -/
def routeMetric (status : Interface) : Option Route → Except Failure (Option ℤ)
  | none => .error .notAnObject
  | some route =>
    if route.isMain = true then
      match status.metricOf route with
      | .value metric =>
        if 0 ≤ metric ∧ metric ≤ 0xffffffff then .ok (some metric) else .error .networkUnavailable
      | _ => .error .networkUnavailable
    else .ok none

/-- What a round over the statuses makes of its status, up to the address. -/
def uplinkMetric (status : Interface) : Except Failure (Option ℤ) :=
  if status.eligible = true then
    match status.route with
    | .missing => .ok none
    | .invalid => .error .networkUnavailable
    | .value routes => do
      require (routes.length ≤ 128) .networkUnavailable
      routes.foldlM
        (fun metric route => do return skipping (keep (· < ·)) metric (← routeMetric status route))
        none
  else .ok none

/-- The metric and the address that a status brings; `none` where the loop goes on. -/
def candidate (inet : Inet) : Option Interface → Except Failure (Option (ℤ × Option Text))
  | none => .ok none
  | some status => do
    return (← uplinkMetric status).map fun metric => (metric, (wanAddress inet status).toOption)

/-- Uplinks of equal metric with different addresses do not make one endpoint. -/
def summary (addresses : List (Option Text)) : Uplink :=
  if addresses.length > 1 then ⟨none, none⟩
  else
    let address := if addresses.length = 1 then addresses.head?.join else none
    ⟨some address.isSome, address⟩

def uplink (inet : Inet) (statuses : Field (List (Option Interface))) : Except Failure Uplink :=
  match statuses with
  | .value statuses => do
    require (statuses.length ≤ 64) .networkUnavailable
    let race ← statuses.foldlM (fun race status => do
      return skipping Race.enter race (← candidate inet status)) Race.start
    return summary race.names
  | _ => .error .networkUnavailable

/-! What is compared: the least metric of each uplink. -/

/-- The metrics of the default routes. -/
def Interface.metrics (status : Interface) : Set ℤ :=
  {m | ∃ routes, status.route = .value routes ∧
    ∃ route, some route ∈ routes ∧ route.isMain = true ∧ status.metricOf route = .value m}

/-- An eligible uplink with a default route, and its best metric. -/
def Interface.Best (status : Interface) (m : ℤ) : Prop :=
  status.eligible = true ∧ IsLeast status.metrics m

/-- The uplinks whose best metric is the least of all. -/
def Minimal (statuses : List (Option Interface)) (status : Interface) : Prop :=
  some status ∈ statuses ∧ ∃ m, status.Best m ∧
    ∀ other n, some other ∈ statuses → other.Best n → m ≤ n

/-- The first public address; a missing one is a value as well. -/
def Interface.address (inet : Inet) (status : Interface) : Option Text :=
  (wanAddress inet status).toOption

theorem routeMetric_eq_ok {route : Option Route} {value : Option ℤ}
    (h : routeMetric status route = .ok value) :
    ∃ r, route = some r ∧ ∀ m, value = some m ↔ r.isMain = true ∧ status.metricOf r = .value m := by
  cases route with
  | none => cases h
  | some r =>
    refine ⟨r, rfl, ?_⟩
    simp only [routeMetric] at h
    by_cases hmain : r.isMain = true
    · rw [if_pos hmain] at h
      cases hm : status.metricOf r with
      | missing => simp [hm] at h
      | invalid => simp [hm] at h
      | value k =>
        simp only [hm] at h
        split at h
        · cases h
          simp [hmain]
        · cases h
    · rw [if_neg hmain] at h
      cases h
      simp [hmain]

/-- The loop over the routes ends with the least metric of the default routes. -/
theorem uplinkMetric_eq_ok {value : Option ℤ} (h : uplinkMetric status = .ok value) :
    value = some m ↔ status.Best m := by
  unfold uplinkMetric at h
  by_cases he : status.eligible = true
  · rw [if_pos he] at h
    unfold Interface.Best
    simp only [he, true_and]
    cases hr : status.route with
    | missing =>
      rw [hr] at h
      cases h
      simp [Interface.metrics, hr, IsLeast]
    | invalid =>
      rw [hr] at h
      cases h
    | value routes =>
      simp only [hr, bind_eq_ok, require_eq_ok] at h
      obtain ⟨_, -, h⟩ := h
      obtain ⟨values, hvalues, rfl⟩ := foldlM_bind_eq_ok.1 h
      rw [foldl_skipping]
      change best (· < ·) values.reduceOption = some m ↔ _
      rw [best_lt_spec]
      have hset : {k | k ∈ values.reduceOption} = status.metrics := by
        ext k
        simp only [Set.mem_ofPred, Interface.metrics, hr, Field.value.injEq, exists_eq_left',
          List.reduceOption_mem_iff, mem_mapM hvalues]
        constructor
        · rintro ⟨route, hmem, hk⟩
          obtain ⟨r, rfl, hiff⟩ := routeMetric_eq_ok hk
          exact ⟨r, hmem, (hiff k).1 rfl⟩
        · rintro ⟨r, hmem, hk⟩
          obtain ⟨value, hvalue⟩ := succeeds_mapM.1 ⟨values, hvalues⟩ _ hmem
          obtain ⟨r', hr', hiff⟩ := routeMetric_eq_ok hvalue
          cases hr'
          exact ⟨some r, hmem, (hiff k).2 hk ▸ hvalue⟩
      rw [hset]
  · rw [if_neg he] at h
    cases h
    simp [Interface.Best, he]

theorem candidate_eq_ok {row : Option (ℤ × Option Text)} {b : Option Text}
    (h : candidate inet (some status) = .ok row) :
    row = some (m, b) ↔ status.Best m ∧ status.address inet = b := by
  simp only [candidate, bind_eq_ok, pure_eq_ok] at h
  obtain ⟨value, hvalue, rfl⟩ := h
  rw [← uplinkMetric_eq_ok hvalue]
  cases value <;> simp [Interface.address]

theorem uplink_eq_ok {statuses : List (Option Interface)} {result : Uplink} :
    uplink inet (.value statuses) = .ok result ↔ statuses.length ≤ 64 ∧
      ∃ rows, statuses.mapM (candidate inet) = .ok rows ∧
        summary (rows.reduceOption.foldl Race.enter Race.start).names = result := by
  simp only [uplink, bind_eq_ok, require_eq_ok, pure_eq_ok]
  constructor
  · rintro ⟨_, hlength, race, hrace, rfl⟩
    obtain ⟨rows, hrows, rfl⟩ := foldlM_bind_eq_ok.1 hrace
    exact ⟨hlength, rows, hrows, by rw [foldl_skipping]⟩
  · rintro ⟨hlength, rows, hrows, rfl⟩
    exact ⟨(), hlength, _, foldlM_bind_eq_ok.2 ⟨rows, hrows, foldl_skipping⟩, rfl⟩

/-- The addresses that are left are those of the minimal uplinks. -/
theorem mem_addresses {statuses : List (Option Interface)} {b : Option Text}
    {rows : List (Option (ℤ × Option Text))} (h : statuses.mapM (candidate inet) = .ok rows) :
    b ∈ (rows.reduceOption.foldl Race.enter Race.start).names ↔
      ∃ status, Minimal statuses status ∧ status.address inet = b := by
  have hrow : ∀ n c, (n, c) ∈ rows.reduceOption ↔
      ∃ status, some status ∈ statuses ∧ status.Best n ∧ status.address inet = c := by
    intro n c
    rw [List.reduceOption_mem_iff, mem_mapM h]
    constructor
    · rintro ⟨status, hmem, hc⟩
      cases status with
      | none => cases hc
      | some status => exact ⟨status, hmem, (candidate_eq_ok hc).1 rfl⟩
    · rintro ⟨status, hmem, hbest⟩
      obtain ⟨row, hr⟩ := succeeds_mapM.1 ⟨rows, h⟩ _ hmem
      exact ⟨some status, hmem, (candidate_eq_ok hr).2 hbest ▸ hr⟩
  rw [Race.mem_names]
  constructor
  · rintro ⟨k, hb, hmin⟩
    obtain ⟨status, hmem, hbest, haddress⟩ := (hrow k b).1 hb
    refine ⟨status, ⟨hmem, k, hbest, ?_⟩, haddress⟩
    intro other n hother hn
    exact hmin (n, other.address inet) ((hrow n _).2 ⟨other, hother, hn, rfl⟩)
  · rintro ⟨status, ⟨hmem, k, hbest, hmin⟩, haddress⟩
    refine ⟨k, (hrow k b).2 ⟨status, hmem, hbest, haddress⟩, ?_⟩
    rintro ⟨n, c⟩ hn
    obtain ⟨other, hother, hn, -⟩ := (hrow n c).1 hn
    exact hmin other n hother hn

/-! The order of the statuses and of their routes. -/

/-- The same status, its routes in another order. -/
inductive Shuffled : Option Interface → Option Interface → Prop
  | same (status : Option Interface) : Shuffled status status
  | routes (status : Interface) {routes routes' : List (Option Route)} (h : routes.Perm routes') :
      Shuffled (some { status with route := .value routes })
        (some { status with route := .value routes' })

theorem metrics_perm {routes routes' : List (Option Route)} (h : routes.Perm routes') :
    { status with route := .value routes }.metrics =
      { status with route := .value routes' }.metrics := by
  ext k
  simp only [Interface.metrics, Set.mem_ofPred, Field.value.injEq, exists_eq_left', h.mem_iff]
  rfl

theorem uplinkMetric_perm {routes routes' : List (Option Route)} (h : routes.Perm routes')
    {value : Option ℤ} (hv : uplinkMetric { status with route := .value routes } = .ok value) :
    uplinkMetric { status with route := .value routes' } = .ok value := by
  have hsucceeds : Succeeds (uplinkMetric { status with route := .value routes' }) := by
    unfold uplinkMetric at hv ⊢
    by_cases he : status.eligible = true
    · have he' (r : Field (List (Option Route))) : { status with route := r }.eligible = true := he
      simp only [he', if_true, bind_eq_ok, require_eq_ok] at hv ⊢
      obtain ⟨_, hlength, hfold⟩ := hv
      obtain ⟨values, hvalues, -⟩ := foldlM_bind_eq_ok.1 hfold
      have hall := succeeds_mapM.1 ⟨values, hvalues⟩
      obtain ⟨values', hvalues'⟩ := succeeds_mapM.2 fun r hr => hall r (h.mem_iff.2 hr)
      simp only [succeeds_bind, require_eq_ok]
      exact ⟨(), h.length_eq ▸ hlength, _, foldlM_bind_eq_ok.2 ⟨values', hvalues', rfl⟩⟩
    · have he' (r : Field (List (Option Route))) :
        ¬ { status with route := r }.eligible = true := he
      rw [if_neg (he' _)]
      exact succeeds_ok
  obtain ⟨value', hv'⟩ := hsucceeds
  have hbest (k : ℤ) : value = some k ↔ value' = some k := by
    rw [uplinkMetric_eq_ok hv, uplinkMetric_eq_ok hv']
    unfold Interface.Best
    rw [metrics_perm h]
    rfl
  rw [hv']
  exact congrArg _ (Option.ext fun k => (hbest k).symm)

theorem candidate_shuffled {s s' : Option Interface} (hs : Shuffled s s')
    {row : Option (ℤ × Option Text)} (h : candidate inet s = .ok row) :
    candidate inet s' = .ok row := by
  cases hs with
  | same => exact h
  | routes status hperm =>
    simp only [candidate, bind_eq_ok] at h ⊢
    obtain ⟨value, hvalue, h⟩ := h
    exact ⟨value, uplinkMetric_perm hperm hvalue, h⟩

theorem mapM_shuffled {statuses middle : List (Option Interface)}
    (hs : List.Forall₂ Shuffled statuses middle) {rows : List (Option (ℤ × Option Text))}
    (h : statuses.mapM (candidate inet) = .ok rows) :
    middle.mapM (candidate inet) = .ok rows := by
  induction hs generalizing rows with
  | nil => exact h
  | cons hhead _ ih =>
    simp only [List.mapM_cons, bind_eq_ok, pure_eq_ok] at h ⊢
    obtain ⟨row, hrow, rest, hrest, rfl⟩ := h
    exact ⟨row, candidate_shuffled hhead hrow, rest, ih hrest, rfl⟩

/-- What is answered depends on the addresses that are left, not on their order. -/
theorem summary_congr {names names' : List (Option Text)} (hn : names.Nodup) (hn' : names'.Nodup)
    (h : ∀ b, b ∈ names ↔ b ∈ names') : summary names = summary names' := by
  have hperm : names.Perm names' := (List.perm_ext_iff_of_nodup hn hn').2 h
  unfold summary
  rw [hperm.length_eq]
  by_cases h1 : names'.length = 1
  · obtain ⟨b, rfl⟩ := List.length_eq_one_iff.1 h1
    rw [List.perm_singleton.1 hperm]
  · simp [h1]

theorem uplink_reordered {statuses statuses' : List (Option Interface)} {result : Uplink}
    (hr : Reordered Shuffled statuses statuses') (h : uplink inet (.value statuses) = .ok result) :
    uplink inet (.value statuses') = .ok result := by
  obtain ⟨middle, hshuffled, hperm⟩ := hr
  obtain ⟨hlength, rows, hrows, rfl⟩ := uplink_eq_ok.1 h
  have hmiddle := mapM_shuffled hshuffled hrows
  have hall := succeeds_mapM.1 ⟨rows, hmiddle⟩
  obtain ⟨rows', hrows'⟩ := succeeds_mapM.2 fun s hs => hall s (hperm.mem_iff.2 hs)
  refine uplink_eq_ok.2 ⟨?_, rows', hrows', ?_⟩
  · rw [← hperm.length_eq, ← hshuffled.length_eq]
    exact hlength
  · refine summary_congr Race.nodup_names Race.nodup_names ?_
    intro b
    rw [mem_addresses hrows', mem_addresses hmiddle]
    simp only [Minimal, hperm.mem_iff]

/-! What the answer says. -/

theorem summary_eq_true {names : List (Option Text)} (hn : names.Nodup) :
    summary names = ⟨some true, some a⟩ ↔ (∃ b, b ∈ names) ∧ ∀ b ∈ names, b = some a := by
  rcases names with _ | ⟨b, _ | ⟨c, rest⟩⟩
  · simp [summary]
  · cases b <;> simp [summary]
  · have hbc : b ≠ c := by
      rintro rfl
      simp at hn
    simp only [summary, List.length_cons]
    rw [if_pos (by omega)]
    simp only [Uplink.mk.injEq, reduceCtorEq, false_and, false_iff, not_and]
    intro _ h
    exact hbc ((h b (by simp)).trans (h c (by simp)).symm)

theorem summary_eq_none {names : List (Option Text)} (hn : names.Nodup) :
    (summary names).publicIpv4Available = none ↔ ∃ b ∈ names, ∃ c ∈ names, b ≠ c := by
  rcases names with _ | ⟨b, _ | ⟨c, rest⟩⟩
  · simp [summary]
  · simp [summary]
  · have hbc : b ≠ c := by
      rintro rfl
      simp at hn
    simp only [summary, List.length_cons]
    rw [if_pos (by omega)]
    exact ⟨fun _ => ⟨b, by simp, c, by simp, hbc⟩, fun _ => rfl⟩

/-- The order of the statuses and of their routes does not matter: the answer is about the
addresses of the minimal uplinks. -/
theorem uplink_order_independent {statuses : List (Option Interface)} {result : Uplink}
    (h : uplink inet (.value statuses) = .ok result) :
    (∀ statuses', Reordered Shuffled statuses statuses' → uplink inet (.value statuses') =
      .ok result) ∧
    (∀ a, result = ⟨some true, some a⟩ ↔ (∃ status, Minimal statuses status) ∧
      ∀ status, Minimal statuses status → status.address inet = some a) ∧
    (result.publicIpv4Available = none ↔ ∃ status other, Minimal statuses status ∧
      Minimal statuses other ∧ status.address inet ≠ other.address inet) := by
  obtain ⟨-, rows, hrows, rfl⟩ := uplink_eq_ok.1 h
  refine ⟨fun statuses' hr => uplink_reordered hr h, ?_, ?_⟩
  · intro a
    rw [summary_eq_true Race.nodup_names]
    simp only [mem_addresses hrows]
    constructor
    · rintro ⟨⟨_, status, hs, -⟩, hall⟩
      exact ⟨⟨status, hs⟩, fun other hother => hall _ ⟨other, hother, rfl⟩⟩
    · rintro ⟨⟨status, hs⟩, hall⟩
      refine ⟨⟨_, status, hs, rfl⟩, ?_⟩
      rintro _ ⟨other, hother, rfl⟩
      exact hall other hother
  · rw [summary_eq_none Race.nodup_names]
    simp only [mem_addresses hrows]
    constructor
    · rintro ⟨_, ⟨status, hs, rfl⟩, _, ⟨other, hother, rfl⟩, hne⟩
      exact ⟨status, other, hs, hother, hne⟩
    · rintro ⟨status, other, hs, hother, hne⟩
      exact ⟨_, ⟨status, hs, rfl⟩, _, ⟨other, hother, rfl⟩, hne⟩

/-! Lines whose best default routes have metrics 20 and 10, and a tunnel with a better one. -/

def wanRoute (metric : ℤ) : Route where
  target := .value "0.0.0.0".toList
  mask := .value 0
  table := .missing
  metric := .value metric

def wanLine (name address : Text) (routes : List Route) : Interface where
  up := true
  proto := .value "dhcp".toList
  l3Device := .value name
  device := .missing
  route := .value (routes.map some)
  metric := .missing
  ipv4Address := [some (.value "10.0.0.2".toList), some (.value address)]

def threeLines : List (Option Interface) :=
  [some (wanLine "eth1".toList "9.9.9.9".toList [wanRoute 20]), none,
    some (wanLine "eth0".toList "8.8.8.8".toList [wanRoute 30, wanRoute 10]),
    some (wanLine "wg0".toList "7.7.7.7".toList [wanRoute 5])]

theorem uplink_threeLines :
    uplink decimalInet (.value threeLines) = .ok ⟨some true, some "8.8.8.8".toList⟩ ∧
    uplink decimalInet (.value threeLines.reverse) =
      .ok ⟨some true, some "8.8.8.8".toList⟩ := by
  have h : uplink decimalInet (.value threeLines) =
      .ok ⟨some true, some "8.8.8.8".toList⟩ := by decide
  refine ⟨h, (uplink_order_independent h).1 _ ⟨threeLines, ?_, threeLines.reverse_perm.symm⟩⟩
  exact List.forall₂_same.2 fun status _ => .same status

end Foxhole.Remote
