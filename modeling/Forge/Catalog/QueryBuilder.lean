import Forge.Lib.Sprintf
import Forge.Catalog.Listing

/-!
# The query of the listing (`queryBuilder` in `catalog/adapters/postgres/repository.go`)

`where` collects the clauses and their arguments, and `sql` splices the clauses into the base text before the
first `ORDER BY`. The arguments are numbered through: what one call leaves is the format with the next numbers
in place of its verbs (`Where_ok`), and by induction on the calls the placeholders read from left to right are
those of all arguments (`wheres_ok`). The splice is at the end of the base where no `ORDER BY` is found earlier,
also not one that the base begins and the suffix ends (`indexOf_append`). The query of `Repository.List` is of
that form for every filter and cursor (`listQuery_aligned`).
-/

namespace Forge.Catalog

open GoString Fmt

structure queryBuilder (α : Type) where
  base : GoString
  clauses : List GoString
  values : List α
deriving DecidableEq

namespace queryBuilder

variable {α : Type}

def newQueryBuilder (base : GoString) : queryBuilder α := ⟨base, [], []⟩

def placeholder (n : Nat) : GoString := str "$" ++ FormatInt n

/-- The loop of `where` over its arguments. -/
def bindArgs (values : List α) (placeholders : List GoString) : List α → List α × List GoString
  | [] => (values, placeholders)
  | a :: args => bindArgs (values ++ [a]) (placeholders ++ [placeholder (values ++ [a]).length]) args

/-- `where`; `none` stands for a format with a directive that is not modelled. -/
def Where (q : queryBuilder α) (clauseFmt : GoString) (args : List α) : Option (queryBuilder α) :=
  let (values, placeholders) := bindArgs q.values [] args
  (Sprintf clauseFmt (placeholders.map .string)).map fun clause =>
    { q with clauses := q.clauses ++ [clause], values := values }

def raw (q : queryBuilder α) (s : GoString) : queryBuilder α := { q with base := q.base ++ s }

/-- The loop over `i`, as long as `sub` fits; `none` is -1. -/
def indexOf (s sub : GoString) : Option Nat :=
  (List.range (s.length + 1 - sub.length)).find? fun i => (s.drop i).take sub.length = sub

def indexOfOrder (sql : GoString) : Option Nat := [str " ORDER BY ", str " LIMIT "].findSome? (indexOf sql)

/-- The loop of `insertWhere` over the clauses. -/
def whereText (clauses : List GoString) : GoString :=
  clauses.zipIdx.foldl (fun text c => (if c.2 > 0 then text ++ str " AND " else text) ++ c.1) (str " WHERE ")

def insertWhere (q : queryBuilder α) (sql : GoString) : GoString :=
  match indexOfOrder sql with
  | none => sql ++ whereText q.clauses
  | some idx => sql.take idx ++ whereText q.clauses ++ sql.drop idx

def sql (q : queryBuilder α) : GoString := if q.clauses.length > 0 then q.insertWhere q.base else q.base

def args (q : queryBuilder α) : List α := q.values

/-- Several calls of `where`. -/
def wheres (q : queryBuilder α) (calls : List (GoString × List α)) : Option (queryBuilder α) :=
  calls.foldlM (fun q call => q.Where call.1 call.2) q

/-! ### The text of the clauses -/

theorem intercalate_cons (sep c : GoString) (cs : List GoString) :
    sep.intercalate (c :: cs) = c ++ cs.flatMap (sep ++ ·) := by
  induction cs generalizing c with
  | nil => simp
  | cons c' cs ih => rw [List.intercalate_cons_cons, ih, List.flatMap_cons, List.append_assoc, List.append_assoc]

theorem whereText_eq (clauses : List GoString) :
    whereText clauses = str " WHERE " ++ (str " AND ").intercalate clauses := by
  have hlater : ∀ (cs : List GoString) (n : Nat) (text : GoString), (cs.zipIdx (n + 1)).foldl
      (fun text c => (if c.2 > 0 then text ++ str " AND " else text) ++ c.1) text =
      text ++ cs.flatMap (str " AND " ++ ·) := by
    intro cs
    induction cs with
    | nil => simp
    | cons c cs ih =>
      intro n text
      rw [List.zipIdx_cons, List.foldl_cons, ih (n + 1)]
      simp
  cases clauses with
  | nil => rfl
  | cons c cs =>
    rw [whereText, List.zipIdx_cons, List.foldl_cons, hlater cs 0, intercalate_cons]
    simp

/-! ### Where the clauses go -/

theorem indexOf_eq_some {s sub : GoString} {i : Nat} (hi : sub <+: s.drop i) (hle : i ≤ s.length)
    (hfirst : ∀ j < i, ¬ sub <+: s.drop j) : indexOf s sub = some i := by
  have hlen := hi.length_le
  rw [List.length_drop] at hlen
  rw [indexOf, List.find?_range_eq_some]
  refine ⟨?_, List.mem_range.2 (by omega), fun j hj => ?_⟩
  · exact decide_eq_true (List.prefix_iff_eq_take.1 hi).symm
  · have hne : (s.drop j).take sub.length ≠ sub := fun he => hfirst j hj (List.prefix_iff_eq_take.2 he.symm)
    simp [hne]

/-- The first `kw` of `base ++ rest` is the one `rest` begins with if `base` has none, and does not end with a
beginning of `kw` whose rest is a beginning of `kw` again. -/
theorem indexOf_append {base rest kw : GoString} (hbase : ¬ kw <:+: base) (hrest : kw <+: rest)
    (hborder : ∀ k, 0 < k → k < kw.length → kw.drop k <+: kw → ¬ kw.take k <:+ base) :
    indexOf (base ++ rest) kw = some base.length := by
  refine indexOf_eq_some (by rwa [List.drop_left]) (by simp) fun j hj hpre => ?_
  rw [List.drop_append_of_le_length (by omega)] at hpre
  have hsuffix : base.drop j <:+ base := List.drop_suffix j base
  have hpos : 0 < (base.drop j).length := by rw [List.length_drop]; omega
  rcases List.prefix_or_prefix_of_prefix hpre (List.prefix_append _ rest) with hin | hover
  · exact hbase (hin.isInfix.trans hsuffix.isInfix)
  · -- `kw` begins in `base` and ends in `rest`
    obtain ⟨tail, rfl⟩ := hover
    generalize base.drop j = start at *
    rcases tail with _ | ⟨b, tail⟩
    · exact hbase (by simpa using hsuffix.isInfix)
    have htail : b :: tail <+: start ++ b :: tail :=
      List.prefix_of_prefix_length_le ((List.prefix_append_right_inj _).1 hpre) hrest (by simp)
    refine hborder start.length hpos (by simp) ?_ ?_
    · rwa [List.drop_left]
    · rwa [List.take_left]

theorem indexOfOrder_append {base rest : GoString} (hbase : ¬ str " ORDER BY " <:+: base)
    (hend : ¬ str " ORDER BY" <:+ base) (hrest : str " ORDER BY " <+: rest) :
    indexOfOrder (base ++ rest) = some base.length := by
  -- the only beginning of the keyword that ends in one is the space
  have hborder : ∀ k < 10, 0 < k → (str " ORDER BY ").drop k <+: str " ORDER BY " →
      (str " ORDER BY ").take k = str " ORDER BY" := by decide
  have hfound := indexOf_append hbase hrest fun k hpos hlt hpre => by
    rw [hborder k hlt hpos hpre]
    exact hend
  simp [indexOfOrder, hfound]

/-- A base without a capital Y. -/
theorem no_order_by {base : GoString} (h : 0x59 ∉ base) :
    ¬ str " ORDER BY " <:+: base ∧ ¬ str " ORDER BY" <:+ base := by
  constructor
  · exact fun hin => h (hin.subset (by decide))
  · exact fun hend => h (hend.subset (by decide))

/-! ### Placeholders and arguments -/

/-- The placeholders of `n` arguments after the first `k`. -/
def placeholders (k n : Nat) : List GoString := (List.range' (k + 1) n).map placeholder

theorem placeholders_append (k n m : Nat) : placeholders k n ++ placeholders (k + n) m = placeholders k (n + m) := by
  rw [placeholders, placeholders, placeholders, ← List.map_append, Nat.add_right_comm k n 1, List.range'_append_1]

theorem bindArgs_eq (values : List α) (ps : List GoString) (args : List α) :
    bindArgs values ps args = (values ++ args, ps ++ placeholders values.length args.length) := by
  induction args generalizing values ps with
  | nil => simp [bindArgs, placeholders]
  | cons a args ih =>
    rw [bindArgs, ih]
    simp [placeholders, List.range'_succ]

/-- One call appends the clause with the next placeholders, and its arguments. -/
theorem Where_ok (q : queryBuilder α) {clauseFmt : GoString} {args : List α} (h : Verbs clauseFmt args.length) :
    ∃ clause, q.Where clauseFmt args = some ⟨q.base, q.clauses ++ [clause], q.values ++ args⟩ ∧
      Filled clauseFmt (placeholders q.values.length args.length) clause := by
  obtain ⟨clause, hclause, hfilled⟩ := @Sprintf_filled clauseFmt (placeholders q.values.length args.length)
    (by simpa [placeholders] using h)
  refine ⟨clause, ?_, hfilled⟩
  rw [Where, bindArgs_eq]
  simp [hclause]

/-- `clauses` are the clauses of the calls, filled with the strings of `pss`. -/
def FilledBy (calls : List (GoString × List α)) (pss : List (List GoString)) (clauses : List GoString) : Prop :=
  pss.map List.length = calls.map (·.2.length) ∧
    List.Forall₂ (fun x clause => Filled x.1.1 x.2 clause) (calls.zip pss) clauses

theorem FilledBy.nil_iff {calls : List (GoString × List α)} {pss : List (List GoString)} {clauses : List GoString}
    (h : FilledBy calls pss clauses) : clauses = [] ↔ calls = [] := by
  have hlen := h.2.length_eq
  have hpss : pss.length = calls.length := by simpa using congrArg List.length h.1
  rw [List.length_zip, hpss, Nat.min_self] at hlen
  rw [← List.length_eq_zero_iff, ← List.length_eq_zero_iff, hlen]

/-- The arguments are numbered through. -/
theorem wheres_ok (q : queryBuilder α) {calls : List (GoString × List α)}
    (h : ∀ call ∈ calls, Verbs call.1 call.2.length) :
    ∃ clauses pss, q.wheres calls = some ⟨q.base, q.clauses ++ clauses, q.values ++ calls.flatMap (·.2)⟩ ∧
      FilledBy calls pss clauses ∧
      pss.flatten = placeholders q.values.length (calls.flatMap (·.2)).length := by
  induction calls generalizing q with
  | nil => exact ⟨[], [], by simp [wheres], ⟨rfl, .nil⟩, rfl⟩
  | cons call calls ih =>
    obtain ⟨hcall, hcalls⟩ := List.forall_mem_cons.1 h
    obtain ⟨clause, hwhere, hfilled⟩ := q.Where_ok hcall
    obtain ⟨clauses, pss, hwheres, ⟨hlen, hall⟩, hflat⟩ := ih _ hcalls
    refine ⟨clause :: clauses, placeholders q.values.length call.2.length :: pss, ?_, ⟨?_, .cons hfilled hall⟩, ?_⟩
    · rw [wheres, List.foldlM_cons, hwhere]
      refine hwheres.trans ?_
      simp
    · rw [List.map_cons, List.map_cons, hlen]
      simp [placeholders]
    · rw [List.flatten_cons, hflat, List.flatMap_cons, List.length_append, List.length_append, placeholders_append]

/-- `raw` does not meet the clauses. -/
theorem wheres_raw (q : queryBuilder α) (s : GoString) (calls : List (GoString × List α)) :
    (q.raw s).wheres calls = (q.wheres calls).map (·.raw s) := by
  induction calls generalizing q with
  | nil => rfl
  | cons call calls ih =>
    simp only [wheres, List.foldlM_cons]
    have hwhere : (q.raw s).Where call.1 call.2 = (q.Where call.1 call.2).map (·.raw s) := by
      simp only [Where, raw, Option.map_map]
      rfl
    rw [hwhere]
    cases q.Where call.1 call.2 with
    | none => rfl
    | some q' => exact ih q'

theorem wheres_append (q : queryBuilder α) (before after : List (GoString × List α)) :
    (q.wheres before).bind (·.wheres after) = q.wheres (before ++ after) := by
  rw [wheres, wheres, List.foldlM_append]
  rfl

theorem wheres_option {β : Type} (q : queryBuilder α) (v : Option β) (call : β → GoString × List α) :
    q.wheres (v.map call).toList = v.elim (some q) fun b => q.Where (call b).1 (call b).2 := by
  cases v with
  | none => rfl
  | some b => simp [wheres]

theorem sql_raw (q : queryBuilder α) {suffix : GoString} (hbase : ¬ str " ORDER BY " <:+: q.base)
    (hend : q.clauses = [] ∨ ¬ str " ORDER BY" <:+ q.base) (hsuffix : str " ORDER BY " <+: suffix) :
    (q.raw suffix).sql =
      q.base ++ (if q.clauses = [] then [] else str " WHERE " ++ (str " AND ").intercalate q.clauses) ++ suffix := by
  by_cases hnil : q.clauses = []
  · simp [sql, raw, hnil]
  · have hpos : (q.raw suffix).clauses.length > 0 := List.length_pos_iff.2 hnil
    rw [sql, if_pos hpos, insertWhere, raw, indexOfOrder_append hbase (hend.resolve_left hnil) hsuffix, if_neg hnil,
      whereText_eq]
    simp

/-- Any calls of `where`, before and after one `raw` of a suffix that begins with `ORDER BY`, over a base without
it that, if there are calls, does not end in it but for its last space: the text is the base, the clauses in the
order of the calls and the suffix, the arguments are those of the calls, and the placeholders in the clauses from
left to right are `$1` to the last argument. -/
theorem sql_aligned {base suffix : GoString} {before after : List (GoString × List α)}
    (hbase : ¬ str " ORDER BY " <:+: base) (hend : before ++ after = [] ∨ ¬ str " ORDER BY" <:+ base)
    (hsuffix : str " ORDER BY " <+: suffix) (hcalls : ∀ call ∈ before ++ after, Verbs call.1 call.2.length) :
    ∃ q pss, (((newQueryBuilder base).wheres before).map (·.raw suffix)).bind (·.wheres after) = some q ∧
      q.sql = base ++ (if before ++ after = [] then [] else str " WHERE " ++ (str " AND ").intercalate q.clauses) ++
        suffix ∧
      q.args = (before ++ after).flatMap (·.2) ∧ FilledBy (before ++ after) pss q.clauses ∧
      pss.flatten = (List.range' 1 q.args.length).map placeholder := by
  obtain ⟨clauses, pss, hwheres, hfilled, hflat⟩ := (newQueryBuilder base).wheres_ok hcalls
  refine ⟨raw ⟨base, clauses, (before ++ after).flatMap (·.2)⟩ suffix, pss, ?_, ?_, rfl, hfilled, ?_⟩
  · have hraw : (((newQueryBuilder base).wheres before).map (·.raw suffix)).bind (·.wheres after) =
        ((newQueryBuilder base).wheres (before ++ after)).map (·.raw suffix) := by
      rw [← wheres_append]
      cases (newQueryBuilder base).wheres before with
      | none => rfl
      | some q => exact wheres_raw q suffix after
    rw [hraw, hwheres]
    rfl
  · rw [← hfilled.nil_iff] at hend
    rw [sql_raw _ hbase hend hsuffix]
    simp only [hfilled.nil_iff, raw]
  · exact hflat

/-! ### Two queries -/

def byTenant : GoString × List GoString := ("tenant_id = %s::uuid", ["t1"])

def byCursor : GoString × List GoString := ("(name, id) > (%s::text, %s::uuid)", ["web", "s1"])

theorem verbs_byTenant : Verbs byTenant.1 1 :=
  .verb (t := str "tenant_id = ") (by decide) (.text (t := str "::uuid") (by decide))

theorem verbs_byCursor : Verbs byCursor.1 2 :=
  .verb (t := str "(name, id) > (") (by decide)
    (.verb (t := str "::text, ") (by decide) (.text (t := str "::uuid)") (by decide)))

theorem sql_aligned_sample : ∃ q : queryBuilder GoString,
    (((newQueryBuilder "SELECT id FROM t").wheres [byTenant, byCursor]).map (·.raw " ORDER BY name")).bind
      (·.wheres []) = some q ∧ q.args = ["t1", "web", "s1"] := by
  obtain ⟨hbase, hend⟩ := @no_order_by "SELECT id FROM t" (by decide)
  have hcalls : ∀ call ∈ [byTenant, byCursor] ++ [], Verbs call.1 call.2.length := by
    intro call hcall
    simp only [List.append_nil, List.mem_cons, List.not_mem_nil, or_false] at hcall
    rcases hcall with rfl | rfl
    · exact verbs_byTenant
    · exact verbs_byCursor
  have hsuffix : str " ORDER BY " <+: " ORDER BY name" := by decide
  obtain ⟨q, pss, hq, -, hargs, -⟩ := sql_aligned hbase (.inr hend) hsuffix hcalls
  exact ⟨q, hq, hargs⟩

/-- A base that ends in `ORDER BY`: it contains the keyword with both its spaces only together with the suffix,
and the clause goes before it. -/
theorem sql_spliced_early : ¬ str " ORDER BY " <:+: str "SELECT id FROM t ORDER BY" ∧
    ¬ str " LIMIT " <:+: str "SELECT id FROM t ORDER BY" ∧ Verbs byTenant.1 byTenant.2.length ∧
    ∃ q, ((newQueryBuilder "SELECT id FROM t ORDER BY").wheres [byTenant]).map (·.raw " ORDER BY name") = some q ∧
      q.clauses = [str "tenant_id = $1::uuid"] ∧
      q.sql = str "SELECT id FROM t WHERE tenant_id = $1::uuid ORDER BY ORDER BY name" ∧
      q.sql ≠ str "SELECT id FROM t ORDER BY" ++ str " WHERE " ++ str "tenant_id = $1::uuid" ++ str " ORDER BY name" := by
  refine ⟨by decide +kernel, by decide +kernel, verbs_byTenant,
    ⟨str "SELECT id FROM t ORDER BY ORDER BY name", [str "tenant_id = $1::uuid"], ["t1"]⟩, ?_, rfl, ?_, ?_⟩
  · decide +kernel
  · decide +kernel
  · decide +kernel

end queryBuilder

/-! ### The query of `Repository.List` -/

open queryBuilder

namespace ListFilter

variable (f : ListFilter)

def serviceColumns : GoString :=
  str "id::text, tenant_id::text, name, description, tier, lifecycle, repository_url, owning_team, on_call_ref, " ++
    str "version, created_at, updated_at"

def listBase : GoString := str "SELECT " ++ serviceColumns ++ str " FROM catalog_services"

/-- `sortCol` and `valCast`. -/
def sortColumn : GoString × GoString :=
  if f.SortBy = .name then (str "name", str "text") else (str "created_at", str "timestamptz")

/-- `cmp` and `dir`. -/
def direction : GoString × GoString := if f.Order = .desc then (str "<", str "DESC") else (str ">", str "ASC")

/-- The format of the clause for a cursor. -/
def cursorFormat : Option GoString :=
  Sprintf "(%s, id) %s (%%s::%s, %%s::uuid)"
    [.string f.sortColumn.1, .string f.direction.1, .string f.sortColumn.2]

/-- The text and the arguments of the query, with the decoded cursor of the request if it has one. -/
def listQuery (cur? : Option cursor) : Option (GoString × List GoValue) := do
  let qb := newQueryBuilder listBase
  let qb ← f.TenantID.elim (some qb) fun t => qb.Where "tenant_id = %s::uuid" [.string t.String]
  let qb ← f.Lifecycle.elim (some qb) fun l => qb.Where "lifecycle = %s" [.string l.text]
  let qb ← f.Tier.elim (some qb) fun t => qb.Where "tier = %s" [.int t.v]
  let qb ← cur?.elim (some qb) fun cur =>
    f.cursorFormat.bind fun format => qb.Where format [.string cur.Value, .string cur.ID]
  let suffix ← Sprintf " ORDER BY %s %s, id %s LIMIT %d"
    [.string f.sortColumn.1, .string f.direction.2, .string f.direction.2, .int (f.Limit + 1)]
  let qb := qb.raw suffix
  return (qb.sql, qb.args)

/-- The calls of `where` that the filter makes; `format` is the one of the cursor. -/
def whereCalls (format : GoString) (cur? : Option cursor) : List (GoString × List GoValue) :=
  (f.TenantID.map fun t => (str "tenant_id = %s::uuid", [GoValue.string t.String])).toList ++
    (f.Lifecycle.map fun l => (str "lifecycle = %s", [GoValue.string l.text])).toList ++
    (f.Tier.map fun t => (str "tier = %s", [GoValue.int t.v])).toList ++
    (cur?.map fun cur => (format, [GoValue.string cur.Value, GoValue.string cur.ID])).toList

theorem listBase_plain : 0x59 ∉ listBase := by decide +kernel

theorem sortColumn_plain : 0x25 ∉ f.sortColumn.1 ∧ 0x25 ∉ f.sortColumn.2 := by
  unfold sortColumn
  split <;> decide

theorem direction_plain : 0x25 ∉ f.direction.1 := by
  unfold direction
  split <;> decide

theorem cursorFormat_eq : f.cursorFormat =
    some (str "(" ++ f.sortColumn.1 ++ str ", id) " ++ f.direction.1 ++ str " (" ++ str "%s" ++
      (str "::" ++ f.sortColumn.2 ++ str ", " ++ str "%s" ++ str "::uuid)")) := by
  have hformat : str "(%s, id) %s (%%s::%s, %%s::uuid)" =
      str "(" ++ (str "%s" ++ (str ", id) " ++ (str "%s" ++ (str " (" ++ (str "%%" ++ (str "s::" ++ (str "%s" ++
        (str ", " ++ (str "%%" ++ str "s::uuid)"))))))))) := by decide
  rw [cursorFormat, hformat, Sprintf_text (by decide), Sprintf_verb, Sprintf_text (by decide), Sprintf_verb,
    Sprintf_text (by decide), Sprintf_percent, Sprintf_text (by decide), Sprintf_verb, Sprintf_text (by decide),
    Sprintf_percent, Sprintf_plain (by decide)]
  have hs : str "%s" = str "%" ++ str "s" := by decide
  have hcast : str "s::" = str "s" ++ str "::" := by decide
  have huuid : str "s::uuid)" = str "s" ++ str "::uuid)" := by decide
  simp only [Option.map_some, hs, hcast, huuid, List.append_assoc]

/-- The format of the cursor has a verb for the value and one for the id. -/
theorem cursorFormat_verbs : ∃ format, f.cursorFormat = some format ∧ Verbs format 2 := by
  obtain ⟨hcol, hcast⟩ := f.sortColumn_plain
  have hcmp := f.direction_plain
  refine ⟨_, f.cursorFormat_eq, .verb ?_ (.verb ?_ (.text (by decide)))⟩
  · simp only [List.mem_append, not_or]
    exact ⟨⟨⟨⟨by decide, hcol⟩, by decide⟩, hcmp⟩, by decide⟩
  · simp only [List.mem_append, not_or]
    exact ⟨⟨by decide, hcast⟩, by decide⟩

/-- The end of the query. -/
def suffix : GoString :=
  str " ORDER BY " ++ f.sortColumn.1 ++ str " " ++ f.direction.2 ++ str ", id " ++ f.direction.2 ++ str " LIMIT " ++
    FormatInt (f.Limit + 1)

theorem suffix_eq : Sprintf " ORDER BY %s %s, id %s LIMIT %d"
      [.string f.sortColumn.1, .string f.direction.2, .string f.direction.2, .int (f.Limit + 1)] = some f.suffix := by
  have hformat : str " ORDER BY %s %s, id %s LIMIT %d" = str " ORDER BY " ++ (str "%s" ++ (str " " ++ (str "%s" ++
      (str ", id " ++ (str "%s" ++ (str " LIMIT " ++ str "%d")))))) := by decide
  rw [hformat, Sprintf_text (by decide), Sprintf_verb, Sprintf_text (by decide), Sprintf_verb, Sprintf_text (by decide),
    Sprintf_verb, Sprintf_text (by decide), Sprintf_decimal]
  simp only [Option.map_some, suffix, List.append_assoc]

theorem whereCalls_verbs {format : GoString} (h : Verbs format 2) (cur? : Option cursor) :
    ∀ call ∈ f.whereCalls format cur?, Verbs call.1 call.2.length := by
  have htenant : Verbs (str "tenant_id = %s::uuid") 1 :=
    .verb (t := str "tenant_id = ") (by decide) (.text (t := str "::uuid") (by decide))
  have hlifecycle : Verbs (str "lifecycle = %s") 1 :=
    .verb (t := str "lifecycle = ") (by decide) (.text (t := []) (by decide))
  have htier : Verbs (str "tier = %s") 1 := .verb (t := str "tier = ") (by decide) (.text (t := []) (by decide))
  intro call hcall
  simp only [whereCalls, List.mem_append, Option.mem_toList, Option.map_eq_some_iff] at hcall
  rcases hcall with ((⟨t, -, rfl⟩ | ⟨l, -, rfl⟩) | ⟨t, -, rfl⟩) | ⟨cur, -, rfl⟩
  · exact htenant
  · exact hlifecycle
  · exact htier
  · exact h

theorem listQuery_eq {format : GoString} (hformat : f.cursorFormat = some format) (cur? : Option cursor) :
    f.listQuery cur? = ((newQueryBuilder listBase).wheres (f.whereCalls format cur?)).map
      fun q => ((q.raw f.suffix).sql, (q.raw f.suffix).args) := by
  rw [Option.map_eq_bind]
  simp only [listQuery, hformat, suffix_eq, whereCalls, ← wheres_append, wheres_option, Option.bind_eq_bind,
    Option.bind_assoc, Option.bind_some]
  rfl

/-- For every filter and cursor the query has a clause for each part of the filter that is set, with the
placeholders of its own arguments. -/
theorem listQuery_aligned (cur? : Option cursor) : ∃ format, f.cursorFormat = some format ∧
    ∃ (q : queryBuilder GoValue) (pss : List (List GoString)), f.listQuery cur? = some (q.sql, q.args) ∧
      q.sql = listBase ++
        (if f.whereCalls format cur? = [] then [] else str " WHERE " ++ (str " AND ").intercalate q.clauses) ++
        f.suffix ∧
      q.args = (f.whereCalls format cur?).flatMap (·.2) ∧ FilledBy (f.whereCalls format cur?) pss q.clauses ∧
      pss.flatten = (List.range' 1 q.args.length).map placeholder := by
  obtain ⟨format, hformat, hverbs⟩ := f.cursorFormat_verbs
  obtain ⟨clauses, pss, hwheres, hfilled, hflat⟩ :=
    (newQueryBuilder listBase).wheres_ok (f.whereCalls_verbs hverbs cur?)
  refine ⟨format, hformat, raw ⟨listBase, clauses, (f.whereCalls format cur?).flatMap (·.2)⟩ f.suffix, pss, ?_, ?_, rfl,
    hfilled, ?_⟩
  · rw [listQuery_eq f hformat, hwheres]
    rfl
  · obtain ⟨hbase, hend⟩ := no_order_by listBase_plain
    rw [sql_raw _ hbase (.inr hend) (by simp [suffix])]
    simp only [hfilled.nil_iff, raw]
  · exact hflat

end ListFilter

end Forge.Catalog
