import Criteria.Evaluator.Grouping
import Criteria.Proofs.Requests
import Criteria.Proofs.Settings

/-!
# Limits on every route

There are several routes to a page of the entities that pass: it may be asked of an
evaluator, alone or with its block, by a specification, or by a query. Each makes its own
checks, in an order of its own and next to others, and the same is true of tops. What a
limit is there for is that no route leads around it.

All routes to a page find the same fault of the page and its size, and without one they go
on as if there were no limit (`Run.Limited`); so the entities of a page that was accepted
are within the limit, whichever route was taken (`PagesLimited`). For tops the same holds,
and for each group of a top by group (`TopsLimited`). A specification calls its count by
another name, so that it is only the text of a fault that tells that route from the others.

A query names its limit, and it is the provider who keeps to it (`Provider.KeepsLimits`).
-/

namespace Criteria

variable {T : Type}

/-! ## Bounds -/

/-- **A number that a limit leaves room for**; zero is no limit. -/
def Limits.Within (limit : UInt64) (n : ℕ) : Prop := limit = 0 ∨ n ≤ limit.toNat

theorem Limits.Within.mono {limit : UInt64} {m n : ℕ} (h : Within limit n) (hle : m ≤ n) :
    Within limit m :=
  h.imp_right hle.trans

namespace Run

variable {α β : Type}

/-- **A request that is limited**: it is behind a check, and its result, if it has one, is
within a bound. -/
structure Limited (x : Run α) (fault? : Option ArgumentFault) (accepted : Run α)
    (bound : α → Prop) : Prop extends x.Guarded fault? accepted where
  /-- No result is out of bounds. -/
  bounded : x.Ends (fun _ => True) bound

/-- Behind a check, only what is accepted has to be within bounds. -/
theorem Guarded.limited {x y : Run α} {f : Option ArgumentFault} {bound : α → Prop}
    (h : x.Guarded f y) (hy : f = none → y.Ends (fun _ => True) bound) :
    x.Limited f y bound where
  toGuarded := h
  bounded := by
    cases hf : f with
    | none =>
      rw [h.accepts hf]
      exact hy hf
    | some cause =>
      obtain ⟨text, rfl⟩ := h.rejects cause hf
      exact trivial

/-- A part of what a run gives is within bounds if the part of everything is. -/
theorem ends_part (x : Run α) (part : α → β) {bound : β → Prop} (h : ∀ a, bound (part a)) :
    (x >>= fun a => .done (part a)).Ends (fun _ => True) bound :=
  (ends_anyhow x).bind fun a _ => h a

end Run

/-! ## Accepted pages and tops -/

namespace Limits

/-- The size of an accepted page is within the limit. -/
theorem within_of_pageFault? {limits : Limits} {page size : Int32}
    (h : limits.pageFault? page size = none) :
    0 < page.toInt ∧ 0 < size.toInt ∧ Within limits.maxPageSize size.toInt.toNat :=
  pageFault?_eq_none_iff.mp h

/-- An accepted top count is within the limit. -/
theorem within_of_topFault? {limits : Limits} {name : Text} {count : Int32}
    (h : limits.topFault? name count = none) :
    Within limits.maxTopCount (countWord count).toNat := by
  obtain ⟨hpos, hwithin⟩ := topFault?_eq_none_iff.mp h
  rwa [countWord_toNat hpos]

end Limits

namespace Evaluator

/-- The entities of a page, of all that pass. -/
def pageRows (page size : Int32) (passed : List T) : List T :=
  slice passed (pageRange (lengthWord passed) (countWord page) (countWord size))

/-- The page and its block, of all entities that pass. -/
def blockOf (page size blockSize : Int32) (passed : List T) : PagedBlock T :=
  let total := lengthWord passed
  let block := (countWord page - 1) / countWord blockSize
  let span := saturatingProduct (countWord size) (countWord blockSize)
  let blockRange := pageRange total (block + 1) span
  { items := pageRows page size passed
    page := page
    pageSize := size
    blockSize := blockSize
    totalInBlock := blockRange.2 - blockRange.1
    hasMoreBlocks := decide (blockRange.2 < total) }

/-- The first entities, of all that pass. -/
def topRows (count : Int32) (passed : List T) : List T := passed.take (countWord count).toNat

/-- The first entities of each group, the groups being read from the last one on. -/
def topGroups {K : Type} (count : Int32) (fromLast : Groups K (List T)) : Groups K (List T) :=
  (fromLast.map fun group => (group.1, topRows count group.2)).reverse

/-- The entities of each key in order, from the group of the last key on. -/
def arrangedGroups {K : Type} [BEq K] (v : Evaluator T) (source : List T) (key : Callable T K)
    (order : Option (SortOrder T)) : Run (Groups K (List T)) := do
  let groups ← v.grouped source key
  Run.each (fun (group : K × List T) => do
    let members ← arrange order group.2
    .done (group.1, members)) groups.reverse

/-- **A page is no longer than its size.** -/
theorem length_pageRows_le {page size : Int32} (hpage : 0 < page.toInt) (hsize : 0 < size.toInt)
    (passed : List T) : (pageRows page size passed).length ≤ size.toInt.toNat := by
  obtain ⟨hfirst, hlast⟩ :=
    pageRange_toNat (lengthWord passed) (countWord size) (countWord_ne_zero hpage)
  have hnext : (countWord page).toNat * (countWord size).toNat
      = ((countWord page).toNat - 1) * (countWord size).toNat + (countWord size).toNat := by
    rw [← Nat.succ_mul, Nat.succ_eq_add_one, Nat.sub_add_cancel]
    rw [countWord_toNat hpage]
    omega
  rw [← countWord_toNat hsize, pageRows, slice, List.length_drop, List.length_take, hfirst, hlast,
    hnext]
  omega

theorem length_topRows_le (count : Int32) (passed : List T) :
    (topRows count passed).length ≤ (countWord count).toNat :=
  List.length_take_le _ _

/-- Every group of a top by group is no longer than its count. -/
theorem length_of_mem_topGroups {K : Type} {count : Int32} {fromLast : Groups K (List T)}
    {group : K × List T} (h : group ∈ topGroups count fromLast) :
    group.2.length ≤ (countWord count).toNat := by
  obtain ⟨whole, -, rfl⟩ := List.mem_map.mp (List.mem_reverse.mp h)
  exact length_topRows_le count whole.2

end Evaluator

/-! ## In memory -/

namespace Evaluator

variable (v : Evaluator T) (source : List T) (order : Option (SortOrder T))

theorem paged_limited (page size : Int32) :
    (v.paged source page size order).Limited (v.limits.pageFault? page size)
      (v.all source order >>= fun passed => .done (pageRows page size passed))
      fun rows => Limits.Within v.limits.maxPageSize rows.length := by
  refine ((v.limits.requirePage_checks page size).guarded _).limited fun hfault => ?_
  obtain ⟨hpage, hsize, hwithin⟩ := Limits.within_of_pageFault? hfault
  exact Run.ends_part _ _ fun passed => hwithin.mono (length_pageRows_le hpage hsize passed)

/-- A block is checked like its page, with one more check between. -/
theorem pagedBlock_limited (page size : Int32) {blockSize : Int32}
    (hblock : 1 ≤ blockSize.toInt) :
    (v.pagedBlock source page size blockSize order).Limited (v.limits.pageFault? page size)
      (v.all source order >>= fun passed => .done (blockOf page size blockSize passed))
      fun block => Limits.Within v.limits.maxPageSize block.items.length := by
  refine Run.Guarded.limited ?_ fun hfault => ?_
  · have hguarded := (v.limits.requirePage_checks page size).guarded
      (v.all source order >>= fun passed => .done (blockOf page size blockSize passed))
    simp only [Limits.requirePage, Run.bind_bind] at hguarded
    unfold pagedBlock
    rw [requirePositive_of_pos _ hblock]
    exact hguarded
  · obtain ⟨hpage, hsize, hwithin⟩ := Limits.within_of_pageFault? hfault
    exact Run.ends_part _ _ fun passed => hwithin.mono (length_pageRows_le hpage hsize passed)

theorem top_limited (count : Int32) :
    (v.top source count order).Limited (v.limits.topFault? "count" count)
      (v.all source order >>= fun passed => .done (topRows count passed))
      fun rows => Limits.Within v.limits.maxTopCount rows.length := by
  refine ((v.limits.requireTop_checks count).guarded _).limited fun hfault => ?_
  exact Run.ends_part _ _ fun passed =>
    (Limits.within_of_topFault? hfault).mono (length_topRows_le count passed)

theorem topByGroup_limited {K : Type} [BEq K] (key : Callable T K) (count : Int32) :
    (v.topByGroup source key count order).Limited (v.limits.topFault? "count" count)
      (v.arrangedGroups source key order >>= fun groups => .done (topGroups count groups))
      fun groups => ∀ group ∈ groups, Limits.Within v.limits.maxTopCount group.2.length := by
  have htops : (v.grouped source key >>= fun groups =>
        Run.each (fun group => arrange order group.2 >>= fun members =>
            .done (group.1, topRows count members)) groups.reverse >>= fun fromLast =>
          .done fromLast.reverse)
      = v.arrangedGroups source key order >>= fun groups => .done (topGroups count groups) := by
    unfold arrangedGroups
    rw [Run.bind_bind]
    refine congrArg (_ >>= ·) (funext fun groups => ?_)
    have heach := Run.each_map
      (fun group : K × List T => arrange order group.2 >>= fun members =>
        Run.done (group.1, members))
      (fun group => (group.1, topRows count group.2)) groups.reverse
    simp only [Run.bind_bind, Run.done_bind] at heach
    rw [heach, Run.bind_bind]
    rfl
  refine Run.Guarded.limited ?_ fun hfault => ?_
  · rw [← htops]
    exact (v.limits.requireTop_checks count).guarded _
  · exact Run.ends_part _ _ fun groups group hgroup =>
      (Limits.within_of_topFault? hfault).mono (length_of_mem_topGroups hgroup)

end Evaluator

/-! ## By a specification -/

namespace Specification

variable {s : Specification T} (h : s.Sound) (source : List T) (limits : Limits)

include h

/-- **A page by a specification** is the page of its evaluator. -/
theorem query_of_page {page size : Int32} (hpage : s.page = some page)
    (hsize : s.pageSize = some size) :
    s.query source limits = (s.evaluator limits).paged source page size s.order := by
  unfold query
  rw [h.validate, hpage, hsize]
  rfl

/-- **A top by a specification** without a page is the top of its evaluator. -/
theorem query_of_top {count : Int32} (hpage : s.page = none) (htop : s.top = some count) :
    s.query source limits = (s.evaluator limits).top source count s.order := by
  unfold query
  rw [h.validate, hpage, htop]
  rfl

/-- Setting a page finds what is not positive, and the query what is above the limit. -/
theorem withPagination_limited (page size : Int32) :
    (s.withPagination page size >>= fun s => s.query source limits).Limited
      (limits.pageFault? page size)
      ((s.evaluator limits).all source s.order >>= fun passed =>
        .done (Evaluator.pageRows page size passed))
      fun rows => Limits.Within limits.maxPageSize rows.length := by
  have hpaged := (s.evaluator limits).paged_limited source s.order page size
  refine Run.Guarded.limited ?_ fun hfault => ?_
  · refine (s.set_guarded (.pagination page size)).bind (fun hset => ?_) fun hset => ?_
    · rw [query_of_page (h.change hset) source limits rfl rfl]
      exact hpaged.toGuarded
    · rw [Limits.pageFault?, ← Option.or_assoc]
      exact Option.or_of_isSome (Option.isSome_iff_ne_none.mpr hset)
  · rw [← hpaged.accepts hfault]
    exact hpaged.bounded

/-- The same for a top count, if no page is set. -/
theorem withTop_limited (hpage : s.page = none) (count : Int32) :
    (s.withTop count >>= fun s => s.query source limits).Limited
      (limits.topFault? "top" count)
      ((s.evaluator limits).all source s.order >>= fun passed =>
        .done (Evaluator.topRows count passed))
      fun rows => Limits.Within limits.maxTopCount rows.length := by
  have htop := (s.evaluator limits).top_limited source s.order count
  refine Run.Guarded.limited ?_ fun hfault => ?_
  · refine (s.set_guarded (.top count)).bind (fun hset => ?_) fun hset => ?_
    · have hpos := positiveFault?_eq_none_iff.mp hset
      rw [query_of_top (h.change hset) source limits hpage rfl, Limits.topFault?_of_pos hpos,
        ← Limits.topFault?_of_pos hpos "count"]
      exact htop.toGuarded
    · exact Option.or_of_isSome (Option.isSome_iff_ne_none.mpr hset)
  · have hallows := Limits.topFault?_eq_none_iff.mp hfault
    rw [← htop.accepts (Limits.topFault?_eq_none_iff.mpr hallows)]
    exact htop.bounded

end Specification

/-! ## By queries -/

/-- **A provider that keeps to the limits of queries**: it gives no more entities than a
query asks for. -/
def Provider.KeepsLimits (p : Provider T) : Prop :=
  ∀ q, (p.fetch q).Ends (fun _ => True) fun rows => ∀ n ∈ q.limit, rows.length ≤ n.toNat

/-- A table does, by its window. -/
theorem Table.keepsLimits (table : Table T) : table.provider.KeepsLimits := fun q => by
  show (table.fetch q).Ends _ _
  unfold fetch
  refine (Run.ends_anyhow _).bind fun _ _ => (Run.ends_anyhow _).bind fun _ _ =>
    (Run.ends_anyhow _).bind fun _ _ => (Run.ends_anyhow _).bind fun rows _ n hn => ?_
  unfold window
  rw [Option.mem_def.mp hn]
  exact List.length_take_le _ _

namespace RemoteEvaluator

variable (r : RemoteEvaluator T) (order : Option (SortOrder T))

/-- A query for entities names the limit that it was composed with. -/
theorem ends_describeSelect (negate : Bool) (offset limit : Option UInt64) :
    (r.describeSelect negate order offset limit).Ends (fun _ => True) fun q => q.limit = limit := by
  unfold describeSelect
  refine (Run.ends_anyhow _).bind fun q _ => ?_
  cases order with
  | none => exact (Run.ends_anyhow _).bind fun _ _ => Run.ends_of_ok rfl rfl
  | some o => exact (Run.ends_anyhow _).bind fun _ _ => Run.ends_of_ok rfl rfl

theorem describePaged_limited (page size : Int32) :
    (r.describePaged page size order).Limited (r.limits.pageFault? page size)
      (r.describeSelect r.negate order (some ((countWord page - 1) * countWord size))
        (some (countWord size)))
      fun q => ∃ n ∈ q.limit, Limits.Within r.limits.maxPageSize n.toNat := by
  refine ((r.limits.requirePage_checks page size).guarded _).limited fun hfault => ?_
  obtain ⟨-, hsize, hwithin⟩ := Limits.within_of_pageFault? hfault
  rw [← countWord_toNat hsize] at hwithin
  exact (r.ends_describeSelect order _ _ _).mono fun q hq => ⟨_, hq, hwithin⟩

theorem describeTop_limited (count : Int32) :
    (r.describeTop count order).Limited (r.limits.topFault? "count" count)
      (r.describeSelect r.negate order none (some (countWord count)))
      fun q => ∃ n ∈ q.limit, Limits.Within r.limits.maxTopCount n.toNat := by
  refine ((r.limits.requireTop_checks count).guarded _).limited fun hfault => ?_
  exact (r.ends_describeSelect order _ _ _).mono fun q hq =>
    ⟨_, hq, Limits.within_of_topFault? hfault⟩

/-- Accepted arguments, a describable predicate and a describable order make a query. -/
theorem exists_query_of_describable {α : Type} (c : Call T α) (hfault : c.fault? r.limits = none)
    (hpredicate : r.predicate.isDescribable = true)
    (horder : ∀ o ∈ c.order, o.isDescribable = true) : ∃ q, (c.query r).outcome = .ok q := by
  obtain ⟨q, hq, -⟩ := Call.exists_query
    (Call.obstacle?_eq_none_iff.mpr ⟨hfault, hpredicate, horder⟩)
  exact ⟨q, hq⟩

/-- **The entities of a limited query** are limited. -/
theorem entities_limited (hprovider : r.provider.KeepsLimits) {x y : Run Query}
    {f : Option ArgumentFault} {limit : UInt64}
    (h : x.Limited f y fun q => ∃ n ∈ q.limit, Limits.Within limit n.toNat) :
    (r.entities x).Limited f (r.entities y) fun rows => Limits.Within limit rows.length where
  toGuarded := h.toGuarded.followed _
  bounded := h.bounded.bind fun q ⟨n, hn, hwithin⟩ => (Run.ends_anyhow _).bind fun _ _ =>
    (hprovider q).mono fun _ hrows => hwithin.mono (hrows n hn)

end RemoteEvaluator

/-! ## Every route -/

/-- The evaluator of the same predicate and limits, by queries. -/
def Evaluator.remote (v : Evaluator T) (provider : Provider T) (name : Text) :
    RemoteEvaluator T where
  provider := provider
  source := name
  predicate := v.predicate
  negate := v.negate
  limits := v.limits

/-- **All routes to a page are limited alike.** -/
structure PagesLimited (v : Evaluator T) (s : Specification T) (provider : Provider T)
    (name : Text) (source : List T) (order : Option (SortOrder T))
    (page size blockSize : Int32) : Prop where
  /-- Accepted are the positive pages of a positive size that is not above the limit. -/
  accepted : v.limits.pageFault? page size = none ↔
    1 ≤ page.toInt ∧ 1 ≤ size.toInt ∧ Limits.Within v.limits.maxPageSize size.toInt.toNat
  /-- If only the limit is in the way, that is the fault. -/
  excess : 1 ≤ page.toInt → 1 ≤ size.toInt →
    ¬ Limits.Within v.limits.maxPageSize size.toInt.toNat →
    v.limits.pageFault? page size
      = some (.pageSizeLimit size.toInt.toNat v.limits.maxPageSize.toNat)
  /-- A page. -/
  paged : (v.paged source page size order).Limited (v.limits.pageFault? page size)
    (v.all source order >>= fun passed => .done (Evaluator.pageRows page size passed))
    fun rows => Limits.Within v.limits.maxPageSize rows.length
  /-- A page with its block. -/
  block : (v.pagedBlock source page size blockSize order).Limited
    (v.limits.pageFault? page size)
    (v.all source order >>= fun passed => .done (Evaluator.blockOf page size blockSize passed))
    fun block => Limits.Within v.limits.maxPageSize block.items.length
  /-- A page by a specification. -/
  specification : (s.withPagination page size >>= fun s => s.query source v.limits).Limited
    (v.limits.pageFault? page size)
    ((s.evaluator v.limits).all source s.order >>= fun passed =>
      .done (Evaluator.pageRows page size passed))
    fun rows => Limits.Within v.limits.maxPageSize rows.length
  /-- The query for a page. -/
  description : ((v.remote provider name).describePaged page size order).Limited
    (v.limits.pageFault? page size)
    ((v.remote provider name).describeSelect v.negate order
      (some ((countWord page - 1) * countWord size)) (some (countWord size)))
    fun q => ∃ n ∈ q.limit, Limits.Within v.limits.maxPageSize n.toNat
  /-- An accepted page of a describable predicate, in a describable order, has a query. -/
  described : v.limits.pageFault? page size = none → v.predicate.isDescribable = true →
    (∀ o ∈ order, o.isDescribable = true) →
    ∃ q, ((v.remote provider name).describePaged page size order).outcome = .ok q
  /-- A page by a query. -/
  remote : ((v.remote provider name).paged page size order).Limited
    (v.limits.pageFault? page size)
    ((v.remote provider name).entities ((v.remote provider name).describeSelect v.negate order
      (some ((countWord page - 1) * countWord size)) (some (countWord size))))
    fun rows => Limits.Within v.limits.maxPageSize rows.length

/-- **All routes to a top are limited alike.** -/
structure TopsLimited {K : Type} [BEq K] (v : Evaluator T) (s : Specification T)
    (provider : Provider T) (name : Text) (source : List T) (key : Callable T K)
    (order : Option (SortOrder T)) (count : Int32) : Prop where
  /-- Accepted are the positive counts that are not above the limit, by any name. -/
  accepted : ∀ argument, v.limits.topFault? argument count = none ↔
    1 ≤ count.toInt ∧ Limits.Within v.limits.maxTopCount count.toInt.toNat
  /-- A top. -/
  top : (v.top source count order).Limited (v.limits.topFault? "count" count)
    (v.all source order >>= fun passed => .done (Evaluator.topRows count passed))
    fun rows => Limits.Within v.limits.maxTopCount rows.length
  /-- A top of each group. -/
  byGroup : (v.topByGroup source key count order).Limited (v.limits.topFault? "count" count)
    (v.arrangedGroups source key order >>= fun groups =>
      .done (Evaluator.topGroups count groups))
    fun groups => ∀ group ∈ groups, Limits.Within v.limits.maxTopCount group.2.length
  /-- A top by a specification without a page. -/
  specification : s.page = none →
    (s.withTop count >>= fun s => s.query source v.limits).Limited
      (v.limits.topFault? "top" count)
      ((s.evaluator v.limits).all source s.order >>= fun passed =>
        .done (Evaluator.topRows count passed))
      fun rows => Limits.Within v.limits.maxTopCount rows.length
  /-- The query for a top. -/
  description : ((v.remote provider name).describeTop count order).Limited
    (v.limits.topFault? "count" count)
    ((v.remote provider name).describeSelect v.negate order none (some (countWord count)))
    fun q => ∃ n ∈ q.limit, Limits.Within v.limits.maxTopCount n.toNat
  /-- An accepted top of a describable predicate, in a describable order, has a query. -/
  described : v.limits.topFault? "count" count = none → v.predicate.isDescribable = true →
    (∀ o ∈ order, o.isDescribable = true) →
    ∃ q, ((v.remote provider name).describeTop count order).outcome = .ok q
  /-- A top by a query. -/
  remote : ((v.remote provider name).top count order).Limited
    (v.limits.topFault? "count" count)
    ((v.remote provider name).entities
      ((v.remote provider name).describeSelect v.negate order none (some (countWord count))))
    fun rows => Limits.Within v.limits.maxTopCount rows.length

/-- **No route leads around a limit.** Whether a page of what an evaluator selects is asked
for alone, with its block, by a specification or by a query, its arguments are accepted or
rejected alike, and no accepted page is above the limit; neither is an accepted top, nor any
group of a top by group. -/
theorem limits_hold_on_every_route {K : Type} [BEq K] (v : Evaluator T) (s : Specification T)
    (provider : Provider T) (name : Text) (source : List T) (key : Callable T K)
    (order : Option (SortOrder T)) (page size blockSize count : Int32) (hs : s.Built)
    (hprovider : provider.KeepsLimits) (hblock : 1 ≤ blockSize.toInt) :
    PagesLimited v s provider name source order page size blockSize ∧
      TopsLimited v s provider name source key order count := by
  have hpaged := (v.remote provider name).describePaged_limited order page size
  have htop := (v.remote provider name).describeTop_limited order count
  constructor
  · exact {
      accepted := Limits.pageFault?_eq_none_iff
      excess := fun hpage hsize hlimit =>
        Limits.pageFault?_of_excess hpage hsize fun hallows => hlimit hallows.2
      paged := v.paged_limited source order page size
      block := v.pagedBlock_limited source order page size hblock
      specification := Specification.withPagination_limited hs.sound source v.limits page size
      description := hpaged
      described :=
        (v.remote provider name).exists_query_of_describable (.paged page size order)
      remote := (v.remote provider name).entities_limited hprovider hpaged }
  · exact {
      accepted := fun _ => Limits.topFault?_eq_none_iff
      top := v.top_limited source order count
      byGroup := v.topByGroup_limited source order key count
      specification := fun hpage =>
        Specification.withTop_limited hs.sound source v.limits hpage count
      description := htop
      described :=
        (v.remote provider name).exists_query_of_describable (.top count order)
      remote := (v.remote provider name).entities_limited hprovider htop }

/-- Pages of three pairs of flags, where two are allowed, and tops of one. -/
theorem limits_hold_on_every_route_flags :
    ({} : Specification (Bool × Bool)).Built ∧
      RemoteEvaluator.flagTable.provider.KeepsLimits ∧ 1 ≤ (5 : Int32).toInt ∧
      (Limits.mk 2 1).pageFault? 1 3 = some (.pageSizeLimit 3 2) ∧
      (Limits.mk 2 1).topFault? "count" 1 = none ∧
      PagesLimited ⟨Predicate.flags, false, ⟨2, 1⟩⟩ {} RemoteEvaluator.flagTable.provider "pairs"
        Predicate.flagRows (some SortOrder.rightFirst) 1 3 5 ∧
      TopsLimited ⟨Predicate.flags, false, ⟨2, 1⟩⟩ {} RemoteEvaluator.flagTable.provider "pairs"
        Predicate.flagRows (some fun e => .done e.1) (some SortOrder.rightFirst) 1 := by
  have hbuilt : ({} : Specification (Bool × Bool)).Built := ⟨[], rfl⟩
  have hprovider := RemoteEvaluator.flagTable.keepsLimits
  have hblock : 1 ≤ (5 : Int32).toInt := by decide
  exact ⟨hbuilt, hprovider, hblock, rfl, rfl,
    limits_hold_on_every_route _ {} _ "pairs" _ _ _ 1 3 5 1 hbuilt hprovider hblock⟩

end Criteria
