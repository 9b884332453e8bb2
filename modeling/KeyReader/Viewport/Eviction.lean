import KeyReader.Table
import KeyReader.Viewport.Controller
import Mathlib.Data.Prod.Lex
import Mathlib.Order.OrderDual

/-! Which tiles leave the cache: those of an earlier raster once their page has all its visible
tiles, and the farthest ones as long as the cache is over a limit. -/

namespace KeyReader.Viewport

open List KeyReader.Geometry

structure CachedTile (I : Type) where
  byteLen : Nat
  image : I

abbrev Rendered (I : Type) : Type := AList fun _ : TileKey => CachedTile I

def Rendered.without {I : Type} (rendered : Rendered I) (keys : List TileKey) : Rendered I :=
  keys.foldl (fun rendered key => rendered.erase key) rendered

/-- What the eviction reads of the reader.  The rendered tiles are iterated in any order. -/
structure TileReader (I : Type) where
  rendered : Rendered I
  renderViewport : List (TileKey × DemandTier)
  /-- In a plan each page has one raster. -/
  planned : ∀ tile ∈ renderViewport, ∀ other ∈ renderViewport,
    tile.1.page = other.1.page → tile.1.raster = other.1.raster
  layout : Option DocumentLayout
  scroll : ScrollOffset ℚ
  viewportWidth : ℚ
  viewportHeight : ℚ
  maxCacheBytes : Nat
  maxCachedTiles : Nat
  idleCacheTrimmed : Bool
  idleCacheRetentionPercent : Nat

def retainedCacheLimit (base percent : Nat) : Nat :=
  (min (base * percent) Machine.u64Max + 99) / 100

def tileDistanceFromViewport (key : TileKey) (layout : Option DocumentLayout)
    (scroll : ScrollOffset ℚ) (viewportWidth viewportHeight : ℚ) : Nat :=
  match layout.bind (·.pageRect key.page),
    tileCoreRectWithSize key PdfReaderLimits.default.normalized.tileSize with
  | some page, some core =>
    let logical := tileLogicalRect page key.raster core
    let dx := logical.x + logical.width * (1 / 2) - scroll.x - viewportWidth * (1 / 2)
    let dy := logical.y + logical.height * (1 / 2) - scroll.y - viewportHeight * (1 / 2)
    min (roundNat (square dx + square dy)) Machine.u64Max
  | _, _ => Machine.u64Max

/-- The tiles that are held, and the images of those that were removed. -/
structure TileCache (I : Type) where
  rendered : Rendered I
  retired : List I

variable {I : Type}

def TileCache.remove (cache : TileCache I) (key : TileKey) : TileCache I where
  rendered := cache.rendered.erase key
  retired := cache.retired ++ ((cache.rendered.lookup key).map (·.image)).toList

namespace TileReader

variable (reader : TileReader I)

def effectiveTileCacheLimits : Nat × Nat :=
  if !reader.idleCacheTrimmed then (reader.maxCacheBytes, reader.maxCachedTiles)
  else (retainedCacheLimit reader.maxCacheBytes reader.idleCacheRetentionPercent,
    retainedCacheLimit reader.maxCachedTiles reader.idleCacheRetentionPercent)

def withinLimits (tiles bytes : Nat) : Bool :=
  tiles ≤ reader.effectiveTileCacheLimits.2 && bytes ≤ reader.effectiveTileCacheLimits.1

/-- The raster of the first tile of a page in the plan. -/
def desiredRaster (page : Nat) : Option RasterSize :=
  reader.renderViewport.findSome? fun (desired, _) =>
    if desired.page = page then some desired.raster else none

def visibleTiles : List TileKey :=
  (reader.renderViewport.filter (·.2 = .visible)).map Prod.fst

/-- The entry of a page in `desired_by_page`. -/
def desiredByPage (page : Nat) : Option (RasterSize × List TileKey) :=
  (reader.desiredRaster page).map (·, reader.visibleTiles.filter (·.page = page))

def isExact (page : Nat) : Bool :=
  (reader.desiredByPage page).any fun (_, visible) =>
    visible ≠ [] && visible.all (· ∈ reader.rendered)

def obsolete : List TileKey :=
  reader.rendered.keys.filter fun key =>
    reader.isExact key.page && (reader.desiredByPage key.page).any (·.1 ≠ key.raster)

/-- The order of the candidates: an earlier raster first, and then the greater distance. -/
def evictionOrder (key : TileKey) : Bool ×ₗ ℕᵒᵈ :=
  let staleScale := (reader.desiredRaster key.page).any (· ≠ key.raster)
  toLex (!staleScale, OrderDual.toDual (tileDistanceFromViewport key reader.layout reader.scroll
    reader.viewportWidth reader.viewportHeight))

def candidates (rendered : Rendered I) : List TileKey :=
  (rendered.keys.filter (· ∉ reader.visibleTiles)).mergeSort fun left right =>
    decide (reader.evictionOrder left ≤ reader.evictionOrder right)

def evictCandidates : List TileKey → TileCache I → Nat → TileCache I
  | [], cache, _ => cache
  | key :: candidates, cache, cachedBytes =>
    if reader.withinLimits cache.rendered.keys.length cachedBytes then cache
    else evictCandidates candidates (cache.remove key)
      (cachedBytes - (cache.rendered.lookup key).elim 0 (·.byteLen))

/-- The cache once the obsolete tiles are removed. -/
def current : TileCache I := reader.obsolete.foldl .remove ⟨reader.rendered, []⟩

def evictDistantTiles : TileCache I :=
  let cache := reader.current
  let cachedBytes := Table.total CachedTile.byteLen cache.rendered
  if reader.withinLimits cache.rendered.keys.length cachedBytes then cache
  else reader.evictCandidates (reader.candidates cache.rendered) cache cachedBytes

def Within (rendered : Rendered I) : Prop :=
  reader.withinLimits rendered.keys.length (Table.total CachedTile.byteLen rendered)

/-- What the eviction keeps and what it drops. -/
structure Evicts : Prop where
  visible : ∀ key ∈ reader.visibleTiles,
    reader.evictDistantTiles.rendered.lookup key = reader.rendered.lookup key
  /-- A page that lacks a visible tile loses others only if the cache is over a limit. -/
  lacking : ∀ lacked ∈ reader.visibleTiles, lacked ∉ reader.rendered → ∀ key ∈ reader.rendered,
    key.page = lacked.page → key ∉ reader.evictDistantTiles.rendered →
      ¬reader.Within reader.current.rendered
  bounded : reader.Within reader.evictDistantTiles.rendered ∨
    ∀ key ∈ reader.evictDistantTiles.rendered, key ∈ reader.visibleTiles
  /-- The tiles that are dropped for the limits, in the order in which they are. -/
  ordered : ∃ dropped : List TileKey,
    reader.evictDistantTiles.rendered = reader.current.rendered.without dropped ∧
      dropped.Pairwise (reader.evictionOrder · ≤ reader.evictionOrder ·) ∧
      (∀ key ∈ dropped, key ∈ reader.current.rendered ∧
        ∀ kept ∈ reader.evictDistantTiles.rendered, kept ∉ reader.visibleTiles →
          reader.evictionOrder key ≤ reader.evictionOrder kept) ∧
      ∀ earlier, earlier <+: dropped → earlier ≠ dropped →
        ¬reader.Within (reader.current.rendered.without earlier)

theorem lookup_without (rendered : Rendered I) (keys : List TileKey) (key : TileKey) :
    (rendered.without keys).lookup key = if key ∈ keys then none else rendered.lookup key := by
  induction keys generalizing rendered with
  | nil => rfl
  | cons first keys ih =>
    refine (ih _).trans ?_
    rw [Table.lookup_erase]
    by_cases hfirst : key = first <;> simp [hfirst]

theorem mem_without {rendered : Rendered I} {keys : List TileKey} {key : TileKey} :
    key ∈ rendered.without keys ↔ key ∉ keys ∧ key ∈ rendered := by
  rw [← AList.lookup_isSome, lookup_without, ← AList.lookup_isSome]
  split <;> simp [*]

variable {reader}

theorem current_rendered : reader.current.rendered = reader.rendered.without reader.obsolete :=
  (foldl_hom TileCache.rendered fun _ _ => rfl).symm

/-- The candidates are dropped in their order until both limits hold. -/
theorem evictCandidates_drops (candidates : List TileKey) (cache : TileCache I) :
    ∃ dropped kept, candidates = dropped ++ kept ∧ (reader.evictCandidates candidates cache
        (Table.total CachedTile.byteLen cache.rendered)).rendered = cache.rendered.without dropped ∧
      (∀ earlier, earlier <+: dropped → earlier ≠ dropped →
        ¬reader.Within (cache.rendered.without earlier)) ∧
      (kept = [] ∨ reader.Within (cache.rendered.without dropped)) := by
  induction candidates generalizing cache with
  | nil => exact ⟨[], [], rfl, rfl, fun _ h hne => absurd (prefix_nil.mp h) hne, .inl rfl⟩
  | cons key candidates ih =>
    unfold evictCandidates
    split
    · rename_i hwithin
      exact ⟨[], _, rfl, rfl, fun _ h hne => absurd (prefix_nil.mp h) hne, .inr hwithin⟩
    · rename_i hover
      have htotal := Table.total_erase CachedTile.byteLen cache.rendered key
      obtain ⟨dropped, kept, rfl, hrendered, hearlier, hdone⟩ := ih (cache.remove key)
      rw [show Table.total CachedTile.byteLen cache.rendered -
          (cache.rendered.lookup key).elim 0 (·.byteLen) =
        Table.total CachedTile.byteLen (cache.remove key).rendered from
          (Nat.eq_sub_of_add_eq htotal).symm]
      refine ⟨key :: dropped, kept, rfl, hrendered, fun earlier hprefix hne => ?_, hdone⟩
      rcases prefix_cons_iff.mp hprefix with rfl | ⟨rest, rfl, hrest⟩
      · exact hover
      · exact hearlier rest hrest fun heq => hne (heq ▸ rfl)

theorem pairwise_candidates (rendered : Rendered I) :
    (reader.candidates rendered).Pairwise (reader.evictionOrder · ≤ reader.evictionOrder ·) := by
  have hsorted : (reader.candidates rendered).Pairwise fun left right =>
      decide (reader.evictionOrder left ≤ reader.evictionOrder right) :=
    pairwise_mergeSort (fun _ _ _ hfirst hsecond =>
      decide_eq_true ((of_decide_eq_true hfirst).trans (of_decide_eq_true hsecond)))
      (fun left right => by simpa using le_total _ _) _
  exact hsorted.imp of_decide_eq_true

theorem mem_candidates {rendered : Rendered I} {key : TileKey} :
    key ∈ reader.candidates rendered ↔ key ∈ rendered ∧ key ∉ reader.visibleTiles := by
  rw [candidates, mem_mergeSort, mem_filter, decide_eq_true_eq, AList.mem_keys]

/-- What the second pass drops: nothing, or a part of the candidates. -/
theorem evictDistantTiles_drops (reader : TileReader I) : ∃ dropped kept,
    reader.evictDistantTiles.rendered = reader.current.rendered.without dropped ∧
      dropped ++ kept = reader.candidates reader.current.rendered ∧
      (∀ earlier, earlier <+: dropped → earlier ≠ dropped →
        ¬reader.Within (reader.current.rendered.without earlier)) ∧
      (kept = [] ∨ reader.Within reader.evictDistantTiles.rendered) := by
  unfold evictDistantTiles
  dsimp only
  split
  · rename_i hwithin
    exact ⟨[], _, rfl, rfl, fun _ h hne => absurd (prefix_nil.mp h) hne, .inr hwithin⟩
  · obtain ⟨dropped, kept, heq, hrendered, hearlier, hdone⟩ :=
      evictCandidates_drops (reader.candidates reader.current.rendered) reader.current
    exact ⟨dropped, kept, hrendered, heq.symm, hearlier, hrendered ▸ hdone⟩

theorem desiredRaster_of_mem {key : TileKey} (hmem : key ∈ reader.visibleTiles) :
    reader.desiredRaster key.page = some key.raster := by
  obtain ⟨tile, htile, rfl⟩ := mem_map.mp hmem
  have htile := (mem_filter.mp htile).1
  cases hraster : reader.desiredRaster tile.1.page with
  | none => simpa using findSome?_eq_none_iff.mp hraster tile htile
  | some raster =>
    obtain ⟨other, hother, hsome⟩ := exists_of_findSome?_eq_some hraster
    obtain ⟨hpage, hsome⟩ := Option.ite_none_right_eq_some.mp hsome
    rw [← hsome, reader.planned other hother tile htile hpage]

theorem mem_of_isExact {page : Nat} {key : TileKey} (hexact : reader.isExact page = true)
    (hvisible : key ∈ reader.visibleTiles) (hpage : key.page = page) : key ∈ reader.rendered := by
  rw [isExact, desiredByPage, Option.any_map, Option.any_eq_true] at hexact
  obtain ⟨raster, -, hexact⟩ := hexact
  have hall := all_eq_true.mp (Bool.and_eq_true_iff.mp hexact).2 key
    (mem_filter.mpr ⟨hvisible, decide_eq_true hpage⟩)
  exact of_decide_eq_true hall

theorem evicts (reader : TileReader I) : reader.Evicts := by
  obtain ⟨dropped, kept, hrendered, hcandidates, hearlier, hdone⟩ := reader.evictDistantTiles_drops
  have hdropped : ∀ key ∈ dropped,
      key ∈ reader.current.rendered ∧ key ∉ reader.visibleTiles := fun key hmem =>
    mem_candidates.mp (hcandidates ▸ mem_append_left _ hmem)
  have hleft : ∀ key ∈ reader.evictDistantTiles.rendered, key ∉ reader.visibleTiles →
      key ∈ kept := by
    intro key hmem hvisible
    obtain ⟨hkept, hcurrent⟩ := mem_without.mp (hrendered ▸ hmem)
    have hcandidate := mem_candidates.mpr ⟨hcurrent, hvisible⟩
    exact (mem_append.mp (hcandidates ▸ hcandidate)).resolve_left hkept
  have hsorted := pairwise_append.mp (hcandidates ▸ pairwise_candidates reader.current.rendered)
  refine ⟨fun key hvisible => ?_, fun lacked hvisible habsent key hmem hpage hlost hwithin => ?_,
    ?_, dropped, hrendered, hsorted.1, fun key hmem => ⟨(hdropped key hmem).1, ?_⟩, hearlier⟩
  · have hobsolete : key ∉ reader.obsolete := by
      intro hmem
      have hraster := (Bool.and_eq_true_iff.mp (mem_filter.mp hmem).2).2
      simp [desiredByPage, desiredRaster_of_mem hvisible] at hraster
    rw [hrendered, lookup_without, if_neg fun hmem => (hdropped key hmem).2 hvisible,
      current_rendered, lookup_without, if_neg hobsolete]
  · have hobsolete : key ∉ reader.obsolete := by
      intro hobsolete
      have hexact := (Bool.and_eq_true_iff.mp (mem_filter.mp hobsolete).2).1
      exact habsent (mem_of_isExact hexact hvisible hpage.symm)
    refine hlost ?_
    unfold evictDistantTiles
    rw [if_pos (by exact hwithin), current_rendered]
    exact mem_without.mpr ⟨hobsolete, hmem⟩
  · rcases hdone with rfl | hwithin
    · exact .inr fun key hmem => not_not.mp fun hvisible => nomatch hleft key hmem hvisible
    · exact .inl hwithin
  · exact fun other hother hvisible => hsorted.2.2 key hmem other (hleft other hother hvisible)

end TileReader

end KeyReader.Viewport
