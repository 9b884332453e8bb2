import KeyReader.Package.Contents

/-! The audit of the central directory of an archive, with its checked offsets and indices: it follows
the chain of headers from an offset, and accepts only complete headers with distinct valid names. -/

namespace KeyReader.Package

open Ascii Checked Machine List

section

variable (archive : Bytes)

/-- `archive.get(start..stop)`. -/
def sliceOf (start stop : Nat) : Option Bytes :=
  if start ≤ stop ∧ stop ≤ archive.length then some ((archive.drop start).take (stop - start))
  else none

/-- `u16::from_le_bytes` of two bytes of a header, which panics outside of it. -/
def u16Indexed (header : Bytes) (offset : Nat) : Load Nat := do
  let low ← okOr header[offset]? (.panic "index out of bounds")
  let high ← okOr header[offset + 1]? (.panic "index out of bounds")
  .ok (low.toNat + 256 * high.toNat)

def invalidArchive (message : String) : Failure := .error (.invalidArchive message)

/-- One pass of the loop of `audit_central_directory`: the path of the entry and the next cursor. -/
def auditEntry (maximumEntries : Nat) (seen : List PackagePath) (cursor : Nat) :
    Load (PackagePath × Nat) := do
  let headerEnd ← okOr (checkedAdd cursor 46) (invalidArchive "central directory header overflows")
  let header ← okOr (sliceOf archive cursor headerEnd)
    (invalidArchive "truncated central directory header")
  let nameLength ← u16Indexed header 28
  let extraLength ← u16Indexed header 30
  let commentLength ← u16Indexed header 32
  let nameEnd ← okOr (checkedAdd headerEnd nameLength)
    (invalidArchive "central directory name overflows")
  let rawName ← okOr (sliceOf archive headerEnd nameEnd)
    (invalidArchive "truncated central directory name")
  let rawName ← okOr (fromUtf8 rawName) (.error (.unsafePath "<non-UTF-8>"))
  let path ← canonicalArchivePath rawName (endsWith "/" rawName)
  check (¬seen.contains path) (.duplicatePath path)
  -- the count is the number of the paths, which is less than the number of bytes
  check (seen.length + 1 ≤ maximumEntries) (.entryLimit (seen.length + 1) maximumEntries)
  let next ← okOr (((checkedAdd nameEnd extraLength).bind (checkedAdd · commentLength)).filter
    (· ≤ archive.length)) (invalidArchive "truncated central directory entry")
  .ok (path, next)

def isHeader (cursor : Nat) : Bool :=
  sliceOf archive cursor (saturatingAdd cursor 4) = some centralHeaderSignature

/-- Where the header after the one at a cursor has to start. -/
def nextHeader (cursor : Nat) : Nat :=
  let header := (archive.drop cursor).take 46
  cursor + 46 + u16At header 28 + u16At header 30 + u16At header 32

/-- The name of the entry at a cursor. -/
def nameAt (cursor : Nat) : Bytes :=
  (archive.drop (cursor + 46)).take (u16At ((archive.drop cursor).take 46) 28)

end

def withoutSlash (raw : String) : String :=
  if endsWith "/" raw then String.ofList raw.toList.dropLast else raw

/-- The entry at a cursor is complete, and its name without a slash at its end is the path. -/
structure HasEntry (archive : Bytes) (cursor : Nat) (path : PackagePath) : Prop where
  complete : nextHeader archive cursor ≤ archive.length
  named : ∃ raw, fromUtf8 (nameAt archive cursor) = some raw ∧ path = withoutSlash raw
  valid : PackagePath.isValid path = true

theorem sliceOf_eq_some {archive bytes : Bytes} {start stop : Nat} :
    sliceOf archive start stop = some bytes ↔
      start ≤ stop ∧ stop ≤ archive.length ∧ (archive.drop start).take (stop - start) = bytes := by
  unfold sliceOf
  split
  · rename_i h
    rw [Option.some_inj]
    exact ⟨fun heq => ⟨h.1, h.2, heq⟩, fun heq => heq.2.2⟩
  · rename_i h
    constructor
    · intro heq
      cases heq
    · rintro ⟨hstart, hstop, -⟩
      exact absurd ⟨hstart, hstop⟩ h

theorem u16Indexed_eq {header : Bytes} {offset : Nat} (h : offset + 1 < header.length) :
    u16Indexed header offset = .ok (u16At header offset) := by
  unfold u16Indexed u16At
  rw [getD_eq_getElem?_getD, getD_eq_getElem?_getD, getElem?_eq_getElem h,
    getElem?_eq_getElem (Nat.lt_of_succ_lt h)]
  rfl

/-- The load ends with a package or an error. -/
def Panicless {α : Type} (load : Load α) : Prop := ∀ message, load ≠ .error (.panic message)

namespace Panicless

variable {α β : Type}

theorem bind {load : Load α} {next : α → Load β} (h : Panicless load)
    (hnext : ∀ a, load = .ok a → Panicless (next a)) : Panicless (load >>= next) := by
  intro message herror
  rcases bind_eq_error.mp herror with herror | ⟨a, ha, herror⟩
  · exact h message herror
  · exact hnext a ha message herror

theorem of_okOr {value : Option α} {error : PackageError} :
    Panicless (okOr value (.error error)) := by
  cases value <;> exact nofun

theorem of_ok (a : α) : Panicless (.ok a) := nofun

theorem of_check {condition : Prop} [Decidable condition] {error : PackageError} :
    Panicless (check condition error) := by
  intro message h
  cases (ensure_eq_error.mp h).2

end Panicless

variable {archive : Bytes} {maximumEntries cursor next : Nat} {seen : List PackagePath}
  {path : PackagePath}

theorem length_header {header : Bytes} {headerEnd : Nat} (hend : checkedAdd cursor 46 = some headerEnd)
    (h : sliceOf archive cursor headerEnd = some header) :
    headerEnd = cursor + 46 ∧ header = (archive.drop cursor).take 46 ∧ header.length = 46 := by
  obtain ⟨rfl, -⟩ := checkedAdd_eq_some.mp hend
  obtain ⟨-, hle, rfl⟩ := sliceOf_eq_some.mp h
  rw [Nat.add_sub_cancel_left]
  refine ⟨rfl, rfl, ?_⟩
  rw [length_take, length_drop]
  omega

theorem panicless_auditEntry : Panicless (auditEntry archive maximumEntries seen cursor) := by
  refine .bind .of_okOr fun headerEnd hend => .bind .of_okOr fun header hheader => ?_
  obtain ⟨-, -, hlength⟩ := length_header (okOr_eq_ok.mp hend) (okOr_eq_ok.mp hheader)
  have hread : ∀ offset, offset + 1 < 46 → Panicless (u16Indexed header offset) := by
    intro offset hoffset
    rw [u16Indexed_eq (hlength ▸ hoffset)]
    exact .of_ok _
  refine .bind (hread 28 (by decide)) fun _ _ => .bind (hread 30 (by decide)) fun _ _ =>
    .bind (hread 32 (by decide)) fun _ _ => .bind .of_okOr fun _ _ => .bind .of_okOr fun _ _ =>
    .bind .of_okOr fun raw _ => .bind ?_ fun _ _ => .bind .of_check fun _ _ =>
    .bind .of_check fun _ _ => .bind .of_okOr fun _ _ => .of_ok _
  exact .bind .of_check fun _ _ => .of_ok _

theorem auditEntry_eq_ok (h : auditEntry archive maximumEntries seen cursor = .ok (path, next)) :
    next = nextHeader archive cursor ∧ HasEntry archive cursor path ∧ path ∉ seen ∧
      seen.length + 1 ≤ maximumEntries := by
  obtain ⟨headerEnd, hend, h⟩ := bind_eq_ok.mp h
  obtain ⟨header, hheader, h⟩ := bind_eq_ok.mp h
  obtain ⟨rfl, rfl, hlength⟩ := length_header (okOr_eq_ok.mp hend) (okOr_eq_ok.mp hheader)
  rw [u16Indexed_eq (by omega), u16Indexed_eq (by omega), u16Indexed_eq (by omega), ok_bind, ok_bind,
    ok_bind] at h
  obtain ⟨nameEnd, hname, h⟩ := bind_eq_ok.mp h
  obtain ⟨rfl, -⟩ := checkedAdd_eq_some.mp (okOr_eq_ok.mp hname)
  obtain ⟨bytes, hbytes, h⟩ := bind_eq_ok.mp h
  obtain ⟨-, -, rfl⟩ := sliceOf_eq_some.mp (okOr_eq_ok.mp hbytes)
  obtain ⟨raw, hraw, h⟩ := bind_eq_ok.mp h
  obtain ⟨found, hfound, h⟩ := bind_eq_ok.mp h
  obtain ⟨hfresh, h⟩ := ensure_bind_eq_ok.mp h
  obtain ⟨hcount, h⟩ := ensure_bind_eq_ok.mp h
  obtain ⟨last, hlast, h⟩ := bind_eq_ok.mp h
  cases h
  obtain ⟨hlast, hle⟩ := Option.filter_eq_some_iff.mp (okOr_eq_ok.mp hlast)
  obtain ⟨extraEnd, hextra, hcomment⟩ := Option.bind_eq_some_iff.mp hlast
  obtain ⟨rfl, -⟩ := checkedAdd_eq_some.mp hextra
  obtain ⟨rfl, -⟩ := checkedAdd_eq_some.mp hcomment
  obtain ⟨hpath, hvalid⟩ := PackagePath.parse_eq_ok hfound
  rw [Nat.add_sub_cancel_left] at hraw
  refine ⟨rfl, ⟨of_decide_eq_true hle, ⟨raw, okOr_eq_ok.mp hraw, ?_⟩, hpath ▸ hvalid⟩, ?_, hcount⟩
  · rw [hpath, withoutSlash]
    simp
  · simpa using hfresh

theorem le_nextHeader (archive : Bytes) (cursor : Nat) : cursor + 46 ≤ nextHeader archive cursor := by
  unfold nextHeader
  dsimp only
  omega

theorem length_of_isHeader (h : isHeader archive cursor = true) : cursor + 4 ≤ archive.length := by
  obtain ⟨-, hle, hbytes⟩ := sliceOf_eq_some.mp (of_decide_eq_true h)
  have hlength := congrArg List.length hbytes
  rw [length_take, length_drop] at hlength
  have hfour : centralHeaderSignature.length = 4 := rfl
  unfold saturatingAdd at hle hlength
  omega

/-- The cursors of the consecutive headers from an offset on. -/
def chain (archive : Bytes) (cursor : Nat) : List Nat :=
  if _h : isHeader archive cursor = true then cursor :: chain archive (nextHeader archive cursor)
  else []
termination_by archive.length - cursor
decreasing_by
  have hlength := length_of_isHeader _h
  have hnext := le_nextHeader archive cursor
  omega

/-- The loop of `audit_central_directory`. -/
def auditFrom (archive : Bytes) (maximumEntries : Nat) (seen : List PackagePath) (cursor : Nat) :
    Load (List PackagePath) :=
  if _h : isHeader archive cursor = true then
    match _hentry : auditEntry archive maximumEntries seen cursor with
    | .error failure => .error failure
    | .ok (path, next) => auditFrom archive maximumEntries (seen ++ [path]) next
  else .ok seen
termination_by archive.length - cursor
decreasing_by
  have hlength := length_of_isHeader _h
  have hnext := le_nextHeader archive cursor
  rw [(auditEntry_eq_ok _hentry).1]
  omega

/-- `audit_central_directory`, with the paths that it has seen. -/
def auditCentralDirectoryFrom (archive : Bytes) (start maximumEntries : Nat) :
    Load (List PackagePath) := do
  let cursor ← okOr ((tryFrom start).filter (· ≤ archive.length))
    (invalidArchive "central directory offset is invalid")
  auditFrom archive maximumEntries [] cursor

def auditNext (archive : Bytes) (maximumEntries : Nat) (seen : List PackagePath) (cursor : Nat) :
    Load (List PackagePath) :=
  (auditEntry archive maximumEntries seen cursor).map fun entry => seen ++ [entry.1]

theorem auditFrom_eq (archive : Bytes) (maximumEntries : Nat) (seen : List PackagePath)
    (cursor : Nat) : auditFrom archive maximumEntries seen cursor =
      (chain archive cursor).foldlM (auditNext archive maximumEntries) seen := by
  fun_induction auditFrom archive maximumEntries seen cursor with
  | case1 seen cursor hheader failure hentry =>
    rw [chain, dif_pos hheader, foldlM_cons, auditNext, hentry]
    rfl
  | case2 seen cursor hheader path next hentry ih =>
    rw [chain, dif_pos hheader, foldlM_cons, auditNext, hentry, ih, (auditEntry_eq_ok hentry).1]
    rfl
  | case3 seen cursor hheader =>
    rw [chain, dif_neg hheader]
    rfl

/-- The lengths of a slice, as the language bounds them. -/
def isizeMax : Nat := 9223372036854775807

theorem u16At_le (header : Bytes) (offset : Nat) : u16At header offset ≤ 65535 := by
  have hlow := (header.getD offset 0).toNat_lt
  have hhigh := (header.getD (offset + 1) 0).toNat_lt
  unfold u16At
  omega

theorem okOr_bind {α β : Type} {condition : Prop} [Decidable condition] {value : Option α} {a : α}
    {error : Failure} {next : α → Load β} (h : value = if condition then some a else none) :
    (okOr value error >>= next) = (ensure condition error >>= fun _ => next a) := by
  subst h
  by_cases hcondition : condition
  · rw [if_pos hcondition, ensure, if_pos hcondition]
    rfl
  · rw [if_neg hcondition, ensure, if_neg hcondition]
    rfl

theorem checkedAdd_of_le {a b : Nat} (h : a + b ≤ u64Max) : checkedAdd a b = some (a + b) := if_pos h

theorem sliceOf_add (archive : Bytes) (start length : Nat) : sliceOf archive start (start + length) =
    if start + length ≤ archive.length then some ((archive.drop start).take length) else none := by
  unfold sliceOf
  rw [Nat.add_sub_cancel_left]
  exact if_congr (and_iff_right (Nat.le_add_right ..)) rfl rfl

/-- Without the overflows that no slice is long enough for. -/
theorem auditEntry_eq (hlength : archive.length ≤ isizeMax) (hcursor : cursor ≤ archive.length) :
    auditEntry archive maximumEntries seen cursor = (do
      check (cursor + 46 ≤ archive.length) (.invalidArchive "truncated central directory header")
      check (cursor + 46 + u16At ((archive.drop cursor).take 46) 28 ≤ archive.length)
        (.invalidArchive "truncated central directory name")
      let rawName ← okOr (fromUtf8 (nameAt archive cursor)) (.error (.unsafePath "<non-UTF-8>"))
      let path ← canonicalArchivePath rawName (endsWith "/" rawName)
      check (¬seen.contains path) (.duplicatePath path)
      check (seen.length + 1 ≤ maximumEntries) (.entryLimit (seen.length + 1) maximumEntries)
      check (nextHeader archive cursor ≤ archive.length)
        (.invalidArchive "truncated central directory entry")
      .ok (path, nextHeader archive cursor)) := by
  have hroom : archive.length + 65535 * 3 + 46 ≤ u64Max := by
    unfold isizeMax at hlength
    unfold u64Max
    omega
  have hle := u16At_le ((archive.drop cursor).take 46)
  have hname := hle 28
  have hextra := hle 30
  have hcomment := hle 32
  unfold auditEntry
  rw [checkedAdd_of_le (by omega)]
  refine (okOr_bind (sliceOf_add archive cursor 46)).trans ?_
  by_cases hheader : cursor + 46 ≤ archive.length
  · have hbytes : ((archive.drop cursor).take 46).length = 46 := by
      rw [length_take, length_drop]
      omega
    rw [u16Indexed_eq (by omega), u16Indexed_eq (by omega), u16Indexed_eq (by omega)]
    refine bind_congr fun _ => ?_
    rw [ok_bind, ok_bind, ok_bind, checkedAdd_of_le (by omega)]
    refine (okOr_bind (sliceOf_add archive ..)).trans ?_
    refine bind_congr fun _ => bind_congr fun raw => bind_congr fun path => bind_congr fun _ =>
      bind_congr fun _ => okOr_bind ?_
    rw [checkedAdd_of_le (by omega), Option.bind_some, checkedAdd_of_le (by omega),
      Option.filter_some]
    exact if_congr decide_eq_true_iff rfl rfl
  · have hfails : ∀ next : Unit → Load (PackagePath × Nat), (ensure (cursor + 46 ≤ archive.length)
          (invalidArchive "truncated central directory header") >>= next) =
          .error (invalidArchive "truncated central directory header") := by
      intro next
      rw [ensure, if_neg hheader]
      rfl
    exact (hfails _).trans (hfails _).symm

/-- The loop of the reader of archives, with enough fuel. -/
theorem auditCentralDirectory_eq (hlength : archive.length ≤ isizeMax) {fuel : Nat}
    (hfuel : archive.length < fuel + cursor) (hcursor : cursor ≤ archive.length) :
    auditCentralDirectory archive maximumEntries fuel cursor seen =
      auditFrom archive maximumEntries seen cursor := by
  induction fuel generalizing cursor seen with
  | zero => omega
  | succ fuel ih =>
    have hheader : isHeader archive cursor = true ↔
        (archive.drop cursor).take 4 = centralHeaderSignature := by
      have hend : saturatingAdd cursor 4 = cursor + 4 := by
        unfold isizeMax at hlength
        unfold saturatingAdd u64Max
        omega
      rw [isHeader, hend, decide_eq_true_iff, sliceOf_add]
      refine ⟨fun h => Option.some.inj (Option.ite_none_right_eq_some.mp h).2, fun h => ?_⟩
      have hfour := congrArg List.length h
      rw [length_take, length_drop, show centralHeaderSignature.length = 4 from rfl] at hfour
      rw [if_pos (by omega), h]
    rw [auditFrom, auditCentralDirectory]
    by_cases h : isHeader archive cursor = true
    · rw [dif_pos h, if_neg (not_not.mpr (hheader.mp h))]
      trans auditEntry archive maximumEntries seen cursor >>= fun entry =>
        auditCentralDirectory archive maximumEntries fuel entry.2 (seen ++ [entry.1])
      · rw [auditEntry_eq hlength hcursor]
        simp only [bind_assoc, ok_bind]
        rfl
      · split
        · rename_i hentry
          rw [hentry]
          rfl
        · rename_i path next hentry
          obtain ⟨rfl, hfound, -⟩ := auditEntry_eq_ok hentry
          have hnext := le_nextHeader archive cursor
          rw [hentry, ok_bind]
          exact ih (by omega) hfound.complete
    · rw [dif_neg h, if_pos (mt hheader.mpr h)]

theorem auditCentralDirectory_eq_truncated :
    auditCentralDirectory centralHeaderSignature 1 5 0 [] = auditFrom centralHeaderSignature 1 [] 0 :=
  auditCentralDirectory_eq (by decide) (by decide) (by decide)

theorem panicless_auditFrom : Panicless (auditFrom archive maximumEntries seen cursor) := by
  fun_induction auditFrom archive maximumEntries seen cursor with
  | case1 seen cursor hheader failure hentry =>
    intro message heq
    cases heq
    exact panicless_auditEntry message hentry
  | case2 seen cursor hheader path next hentry ih => exact ih
  | case3 seen cursor hheader => exact .of_ok _

theorem auditNext_eq_ok {last : List PackagePath}
    (h : auditNext archive maximumEntries seen cursor = .ok last) :
    ∃ path, last = seen ++ [path] ∧ HasEntry archive cursor path ∧ path ∉ seen ∧
      seen.length + 1 ≤ maximumEntries := by
  unfold auditNext at h
  cases hentry : auditEntry archive maximumEntries seen cursor with
  | error failure =>
    rw [hentry] at h
    cases h
  | ok entry =>
    obtain ⟨path, next⟩ := entry
    rw [hentry] at h
    exact ⟨path, (Except.ok.inj h).symm, (auditEntry_eq_ok hentry).2⟩

theorem foldlM_auditNext {cursors : List Nat} {last : List PackagePath}
    (h : cursors.foldlM (auditNext archive maximumEntries) seen = .ok last) :
    ∃ paths, last = seen ++ paths ∧ List.Forall₂ (HasEntry archive) cursors paths ∧
      (seen.Nodup → last.Nodup) ∧ (seen.length ≤ maximumEntries → last.length ≤ maximumEntries) := by
  induction cursors generalizing seen with
  | nil =>
    cases h
    exact ⟨[], (append_nil _).symm, .nil, id, id⟩
  | cons cursor cursors ih =>
    obtain ⟨middle, hmiddle, hrest⟩ := bind_eq_ok.mp h
    obtain ⟨path, rfl, hentry, hfresh, hcount⟩ := auditNext_eq_ok hmiddle
    obtain ⟨paths, rfl, hpaths, hnodup, hlength⟩ := ih hrest
    refine ⟨path :: paths, append_cons .. ▸ rfl, .cons hentry hpaths, fun h => hnodup ?_,
      fun _ => hlength ?_⟩
    · exact List.Nodup.append h (nodup_singleton _) (disjoint_singleton.mpr hfresh)
    · rwa [length_append]

/-- The audit ends with an error or with the paths of all headers of the chain: it looks at them in
their order, reads no byte outside the archive, and accepts only complete entries with distinct valid
paths, of which there are not too many. -/
theorem central_directory_audit (archive : Bytes) (start maximumEntries : Nat) :
    Panicless (auditCentralDirectoryFrom archive start maximumEntries) ∧
    (start ≤ archive.length → start ≤ u64Max →
      auditCentralDirectoryFrom archive start maximumEntries =
        (chain archive start).foldlM (auditNext archive maximumEntries) []) ∧
    ∀ paths, auditCentralDirectoryFrom archive start maximumEntries = .ok paths →
      start ≤ archive.length ∧ List.Forall₂ (HasEntry archive) (chain archive start) paths ∧
        paths.Nodup ∧ paths.length ≤ maximumEntries := by
  have hwalk : ∀ cursor, auditFrom archive maximumEntries [] cursor = _ :=
    auditFrom_eq archive maximumEntries []
  refine ⟨.bind .of_okOr fun _ _ => panicless_auditFrom, fun hlength hstart => ?_, fun paths h => ?_⟩
  · rw [← hwalk, auditCentralDirectoryFrom, tryFrom_of_le hstart, Option.filter_some,
      if_pos (decide_eq_true hlength)]
    rfl
  · obtain ⟨cursor, hcursor, h⟩ := bind_eq_ok.mp h
    obtain ⟨hcursor, hlength⟩ := Option.filter_eq_some_iff.mp (okOr_eq_ok.mp hcursor)
    obtain ⟨rfl, -⟩ := tryFrom_eq_some.mp hcursor
    rw [hwalk] at h
    obtain ⟨found, rfl, hfound, hnodup, hcount⟩ := foldlM_auditNext h
    exact ⟨of_decide_eq_true hlength, hfound, hnodup .nil, hcount (Nat.zero_le _)⟩

end KeyReader.Package
