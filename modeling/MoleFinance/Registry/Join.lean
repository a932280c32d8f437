import MoleFinance.Registry.Render

/-! Two configuration texts, one behind the other. -/
namespace MoleFinance.Registry
open Chars Call Decoder
variable {lookup : Env} {i j : Nat}

theorem Chunk.value_getLast {x : Chunk} {v : Text} (hv : x.value lookup = some v)
    (hlast : x.source.getLast? = some '\n') : v.getLast? = some '\n' := by
  cases x with
  | plain c hc =>
    cases hv
    exact hlast
  | escaped => cases hlast
  | bare c hc =>
    cases hv
    exact hlast
  | ref name hname =>
    have hbrace : (refText name).getLast? = some '}' := by
      simp [refText, List.getLast?_cons]
    cases hbrace.symm.trans hlast

theorem Chunk.source_ne_nil (x : Chunk) : x.source ≠ [] := by
  cases x <;> simp [source, refText]

theorem values_getLast {chunks : List Chunk} {v : Text} (hv : values lookup chunks = some v)
    (hlast : (sources chunks).getLast? = some '\n') : v.getLast? = some '\n' := by
  induction chunks generalizing v with
  | nil => cases hlast
  | cons x xs ih =>
    obtain ⟨vx, hx, h⟩ := Option.bind_eq_some_iff.mp hv
    obtain ⟨vs, hxs, h⟩ := Option.bind_eq_some_iff.mp h
    cases h
    have hsource : sources (x :: xs) = x.source ++ sources xs := rfl
    rw [hsource, List.getLast?_append] at hlast
    rw [List.getLast?_append]
    cases xs with
    | nil =>
      cases hxs
      exact x.value_getLast hx hlast
    | cons y ys =>
      have hne : sources (y :: ys) ≠ [] :=
        fun h => y.source_ne_nil (List.append_eq_nil_iff.mp h).1
      rw [List.getLast?_eq_some_getLast hne, Option.some_or] at hlast
      rw [ih hxs ((List.getLast?_eq_some_getLast hne).trans hlast), Option.some_or]

theorem substituteFrom_ok {text out : Text} (h : substituteFrom lookup i text = .ok out) :
    ∃ chunks tail v, text = sources chunks ++ tail ∧ values lookup chunks = some v ∧
      (tail = [] ∨ tail = ['$']) ∧ out = v ++ tail := by
  obtain ⟨chunks, tail, v, e, htext, hv, hend, hout⟩ := substituteFrom_iff.mp h
  cases hend with
  | done =>
    cases hout
    exact ⟨chunks, [], v, htext, hv, Or.inl rfl, rfl⟩
  | dollar =>
    cases hout
    exact ⟨chunks, ['$'], v, htext, hv, Or.inr rfl, rfl⟩
  | unset after hname hunset => cases hout
  | unclosed h => cases hout
  | unnamed after => cases hout
  | invalid after hne hclosed hname => cases hout

/-- Where a template can be filled in does not depend on where it stands. -/
theorem substituteFrom_shift {text out : Text} (h : substituteFrom lookup i text = .ok out) :
    substituteFrom lookup j text = .ok out := by
  obtain ⟨chunks, tail, v, rfl, hv, htail, rfl⟩ := substituteFrom_ok h
  refine substituteFrom_iff.mpr ⟨chunks, tail, v, .ok tail, rfl, hv, ?_, rfl⟩
  cases htail with
  | inl h =>
    subst h
    exact .done
  | inr h =>
    subst h
    exact .dollar

theorem substituteFrom_join {t u vt vu : Text} (hend : t.getLast? = some '\n')
    (ht : substituteFrom lookup i t = .ok vt) (hu : substituteFrom lookup j u = .ok vu) :
    vt.getLast? = some '\n' ∧ substituteFrom lookup i (t ++ u) = .ok (vt ++ vu) := by
  obtain ⟨chunks, tail, v, rfl, hv, htail, rfl⟩ := substituteFrom_ok ht
  cases htail with
  | inl h =>
    subst h
    rw [List.append_nil] at hend ⊢
    rw [List.append_nil]
    refine ⟨values_getLast hv hend, ?_⟩
    rw [substitute_chunks hv, substituteFrom_shift hu]
    rfl
  | inr h =>
    subst h
    rw [List.getLast?_append] at hend
    cases hend

theorem parseKeyValue_shift {line : Text} {f : Text × Text} {n m : Nat}
    (h : parseKeyValue line n = .ok f) : parseKeyValue line m = .ok f := by
  obtain ⟨⟨before, behind⟩, hcut, h⟩ := except_bind_ok.mp h
  obtain ⟨_, hkey, h⟩ := except_bind_ok.mp h
  obtain ⟨_, hopen, h⟩ := except_bind_ok.mp h
  obtain ⟨⟨value, tail⟩, hclose, h⟩ := except_bind_ok.mp h
  obtain ⟨_, hafter, h⟩ := except_bind_ok.mp h
  rw [parseKeyValue, cutOr_ok.mpr (cutOr_ok.mp hcut), ok_bind]
  dsimp only
  rw [ensure_of (ensure_ok.mp hkey), ok_bind, ensure_of (ensure_ok.mp hopen), ok_bind,
    cutOr_ok.mpr (cutOr_ok.mp hclose), ok_bind]
  dsimp only
  rw [ensure_of (ensure_ok.mp hafter), ok_bind]
  exact h

/-- The same lines behind other tables: nothing yet, or the tables behind the others. -/
def Behind (base : List (List (Text × Text))) (q q' : Progress) : Prop :=
  (q = {} ∧ q'.rows = base) ∨
    ∃ t t', q.current = some t ∧ q'.current = some t' ∧ t'.fields = t.fields ∧
      q'.tables.map RawTable.fields = base ++ q.tables.map RawTable.fields

theorem Behind.rows {base : List (List (Text × Text))} {q q' : Progress} (h : Behind base q q') :
    q'.rows = base ++ q.rows := by
  cases h with
  | inl h =>
    rw [h.1, h.2]
    exact (List.append_nil base).symm
  | inr h =>
    obtain ⟨t, t', ht, ht', hfields, htables⟩ := h
    simp [Progress.rows, Progress.flush, ht, ht', hfields, htables]

theorem parseContent_behind {base : List (List (Text × Text))} {line : Text} {n m : Nat}
    {p p' q : Progress} (hp : Behind base p p') (h : parseContent n line p = .ok q) :
    ∃ q', parseContent m line p' = .ok q' ∧ Behind base q q' := by
  rw [parseContent] at h
  split at h
  · rename_i hheader
    obtain ⟨_, hname, h⟩ := except_bind_ok.mp h
    cases h
    refine ⟨⟨p'.flush, some ⟨m, []⟩⟩, ?_, Or.inr ⟨⟨n, []⟩, ⟨m, []⟩, rfl, rfl, rfl, hp.rows⟩⟩
    rw [parseContent, if_pos hheader]
    dsimp only
    rw [ensure_of (ensure_ok.mp hname)]
    rfl
  rename_i hheader
  split at h
  · cases h
  rename_i hopen
  obtain ⟨f, hkv, h⟩ := except_bind_ok.mp h
  cases hp with
  | inl hp =>
    rw [hp.1] at h
    cases h
  | inr hp =>
    obtain ⟨t, t', ht, ht', hfields, htables⟩ := hp
    dsimp only at h
    rw [ht] at h
    cases h
    refine ⟨{ p' with current := some { t' with fields := t'.fields ++ [f] } }, ?_,
      Or.inr ⟨_, _, rfl, rfl, congrArg (· ++ [f]) hfields, htables⟩⟩
    rw [parseContent, if_neg hheader, if_neg hopen, parseKeyValue_shift hkv]
    dsimp only [ok_bind]
    rw [ht']

theorem parseLines_behind {base : List (List (Text × Text))} {ls : List Text} {n m : Nat}
    {p p' q : Progress} (hp : Behind base p p') (h : parseLines n ls p = .ok q) :
    ∃ q', parseLines m ls p' = .ok q' ∧ Behind base q q' := by
  induction ls generalizing n m p p' with
  | nil =>
    cases h
    exact ⟨p', rfl, hp⟩
  | cons l ls ih =>
    rw [parseLines] at h
    split at h
    · rename_i hblank
      obtain ⟨q', hq', hq⟩ := ih (m := m + 1) hp h
      refine ⟨q', ?_, hq⟩
      rw [parseLines, if_pos hblank]
      exact hq'
    · rename_i hblank
      obtain ⟨p1, hp1, h⟩ := except_bind_ok.mp h
      obtain ⟨p1', hp1', hb⟩ := parseContent_behind (m := m) hp hp1
      obtain ⟨q', hq', hq⟩ := ih (m := m + 1) hb h
      refine ⟨q', ?_, hq⟩
      rw [parseLines, if_neg hblank, hp1', ok_bind]
      exact hq'

def Tables (text : Text) (tables : List (List (Text × Text))) : Prop :=
  ∃ raw, parseMarketTables text = .ok raw ∧ raw.map RawTable.fields = tables

theorem Tables.join {s t : Text} {as bs : List (List (Text × Text))}
    (hs : Tables s as) (ht : Tables t bs) (hend : s.getLast? = some '\n') :
    Tables (s ++ t) (as ++ bs) := by
  obtain ⟨raw, hraw, rfl⟩ := hs
  obtain ⟨raw', hraw', rfl⟩ := ht
  obtain ⟨p, hp, rfl⟩ := except_map_ok.mp hraw
  obtain ⟨q, hq, rfl⟩ := except_map_ok.mp hraw'
  obtain ⟨w, rfl⟩ := List.getLast?_eq_some_iff.mp hend
  obtain ⟨q', hq', hbehind⟩ := parseLines_behind (m := 1 + (lines (w ++ ['\n'])).length)
    (Or.inl ⟨rfl, rfl⟩ : Behind p.rows {} p) hq
  refine ⟨q'.flush, ?_, hbehind.rows⟩
  have hlines : lines (w ++ ['\n'] ++ t) = lines (w ++ ['\n']) ++ lines t := by
    rw [List.append_assoc]
    exact lines_append w t
  rw [parseMarketTables, hlines, parseLines_append, hp, ok_bind, hq']
  rfl

theorem gather_shift {fields : List (Text × Text)} {v w : EntryValues} {n m : Nat}
    (h : gather i n fields v = .ok w) : gather j m fields v = .ok w := by
  induction fields generalizing v with
  | nil => exact h
  | cons f fs ih =>
    obtain ⟨key, value⟩ := f
    rw [gather] at h ⊢
    cases hset : v.set key value with
    | none =>
      rw [hset] at h
      cases h
    | some v' =>
      rw [hset] at h
      exact ih h

theorem require_shift {key : String} {value : Option Text} {v : Text}
    (h : require i key value = .ok v) : require j key value = .ok v :=
  require_ok.mpr (require_ok.mp h)

theorem build_shift {v : EntryValues} {m : MarketEntry} (h : v.build i = .ok m) :
    v.build j = .ok m := by
  obtain ⟨symbol, hsymbol, h⟩ := except_bind_ok.mp h
  obtain ⟨_, hvalid, h⟩ := except_bind_ok.mp h
  obtain ⟨programIdRaw, hprogram, h⟩ := except_bind_ok.mp h
  obtain ⟨marketPdaRaw, hmarket, h⟩ := except_bind_ok.mp h
  rw [EntryValues.build, require_shift hsymbol, ok_bind, hvalid, ok_bind,
    require_shift hprogram, ok_bind, require_shift hmarket, ok_bind]
  exact h

theorem buildEntry_shift {t t' : RawTable} {m : MarketEntry} (hfields : t'.fields = t.fields)
    (h : buildEntry i t = .ok m) : buildEntry j t' = .ok m := by
  obtain ⟨v, hv, h⟩ := except_bind_ok.mp h
  rw [buildEntry, hfields, gather_shift hv, ok_bind]
  exact build_shift h

theorem buildEntries_shift {ts ts' : List RawTable} {ms : List MarketEntry}
    (hfields : ts'.map RawTable.fields = ts.map RawTable.fields)
    (h : buildEntries i ts = .ok ms) : buildEntries j ts' = .ok ms := by
  induction ts generalizing i j ts' ms with
  | nil =>
    have hnil : ts' = [] := List.map_eq_nil_iff.mp hfields
    rw [hnil]
    exact h
  | cons t ts ih =>
    cases ts' with
    | nil => cases hfields
    | cons t' ts' =>
      rw [List.map_cons, List.map_cons, List.cons.injEq] at hfields
      obtain ⟨m, hm, h⟩ := except_bind_ok.mp h
      obtain ⟨rest, hrest, h⟩ := except_bind_ok.mp h
      rw [buildEntries, buildEntry_shift hfields.1 hm, ok_bind, ih hfields.2 hrest, ok_bind]
      exact h

theorem buildEntries_append {ts ts' : List RawTable} {ms ms' : List MarketEntry}
    (h : buildEntries i ts = .ok ms) (h' : buildEntries j ts' = .ok ms') :
    buildEntries i (ts ++ ts') = .ok (ms ++ ms') := by
  induction ts generalizing i ms with
  | nil =>
    cases h
    exact buildEntries_shift rfl h'
  | cons t ts ih =>
    obtain ⟨m, hm, h⟩ := except_bind_ok.mp h
    obtain ⟨rest, hrest, h⟩ := except_bind_ok.mp h
    cases h
    rw [List.cons_append, buildEntries, hm, ok_bind, ih hrest]
    rfl

def Entries (tables : List (List (Text × Text))) (ms : List MarketEntry) : Prop :=
  ∀ raw : List RawTable, raw.map RawTable.fields = tables → buildEntries 0 raw = .ok ms

theorem Entries.join {as bs : List (List (Text × Text))} {ms ms' : List MarketEntry}
    (h : Entries as ms) (h' : Entries bs ms') : Entries (as ++ bs) (ms ++ ms') := by
  intro raw hraw
  obtain ⟨l, l', rfl, hl, hl'⟩ := List.map_eq_append_iff.mp hraw
  exact buildEntries_append (h l hl) (h' l' hl')

theorem firstDuplicate_append {seen : List Text} {ms ms' : List MarketEntry}
    (h : firstDuplicate seen ms = none) :
    firstDuplicate seen (ms ++ ms')
      = firstDuplicate ((ms.map MarketEntry.symbol).reverse ++ seen) ms' := by
  induction ms generalizing seen with
  | nil => rfl
  | cons m ms ih =>
    rw [firstDuplicate] at h
    split at h
    · cases h
    rename_i hm
    rw [List.cons_append, firstDuplicate, if_neg hm, ih h]
    simp

theorem firstDuplicate_seen {seen : List Text} {ms : List MarketEntry}
    (h : firstDuplicate [] ms = none) : firstDuplicate seen ms
      = (ms.find? fun m => m.symbol ∈ seen).map MarketEntry.symbol := by
  obtain ⟨-, hnodup⟩ := firstDuplicate_none.mp h
  clear h
  have hgen : ∀ more, (∀ m ∈ ms, m.symbol ∉ more) → firstDuplicate (more ++ seen) ms
      = (ms.find? fun m => m.symbol ∈ seen).map MarketEntry.symbol := by
    induction ms with
    | nil =>
      intro more hmore
      rfl
    | cons m ms ih =>
      intro more hmore
      rw [List.map_cons, List.nodup_cons] at hnodup
      have hm := hmore m List.mem_cons_self
      rw [firstDuplicate, List.find?_cons]
      by_cases hseen : m.symbol ∈ seen
      · simp [hseen]
      · rw [if_neg (by simp [hm, hseen])]
        simp only [hseen, decide_false]
        refine ih hnodup.2 (m.symbol :: more) fun x hx => ?_
        rw [List.mem_cons, not_or]
        refine ⟨fun hsym => hnodup.1 ?_, hmore x (List.mem_cons_of_mem _ hx)⟩
        exact hsym ▸ List.mem_map_of_mem hx
  exact hgen [] (by simp)

theorem checkEntries_join {ms ms' : List MarketEntry} {r s : MarketRegistry}
    (h : checkEntries ms = .ok r) (h' : checkEntries ms' = .ok s) :
    checkEntries (ms ++ ms') =
      match ms'.find? fun m => m.symbol ∈ ms.map MarketEntry.symbol with
      | none => .ok ⟨ms ++ ms'⟩
      | some m => .error (.duplicateSymbol m.symbol) := by
  obtain ⟨-, hne, hnodup⟩ := checkEntries_ok.mp h
  obtain ⟨-, -, hnodup'⟩ := checkEntries_ok.mp h'
  have hfirst : firstDuplicate [] ms = none := firstDuplicate_none.mpr ⟨by simp, hnodup⟩
  have hsecond : firstDuplicate [] ms' = none := firstDuplicate_none.mpr ⟨by simp, hnodup'⟩
  rw [checkEntries, firstDuplicate_append hfirst, firstDuplicate_seen hsecond]
  simp only [List.append_nil, List.mem_reverse]
  cases ms'.find? fun m => m.symbol ∈ ms.map MarketEntry.symbol with
  | none => simp [hne]
  | some m => rfl

namespace MarketRegistry

theorem load_ok {input : Text} {r : MarketRegistry} :
    fromTomlStrWithEnv input lookup = .ok r ↔ ∃ resolved tables,
      substituteEnvVars lookup input = .ok resolved ∧ Tables resolved tables ∧
        Entries tables r.markets ∧ checkEntries r.markets = .ok r := by
  constructor
  · intro h
    obtain ⟨resolved, hresolved, h⟩ := except_bind_ok.mp h
    obtain ⟨raw, hraw, h⟩ := except_bind_ok.mp h
    obtain ⟨ms, hms, h⟩ := except_bind_ok.mp h
    obtain ⟨hmarkets, -⟩ := checkEntries_ok.mp h
    rw [← hmarkets] at hms h
    exact ⟨resolved, _, hresolved, ⟨raw, hraw, rfl⟩, fun raw' hfields =>
      buildEntries_shift hfields hms, h⟩
  · rintro ⟨resolved, tables, hresolved, ⟨raw, hraw, hfields⟩, hentries, hcheck⟩
    rw [fromTomlStrWithEnv, hresolved, ok_bind, hraw, ok_bind, hentries raw hfields]
    exact hcheck

/-- A text behind another whose last line is ended: the markets of both, unless they share a
symbol. -/
theorem load_join {t u : Text} {r s : MarketRegistry}
    (ht : fromTomlStrWithEnv t lookup = .ok r) (hu : fromTomlStrWithEnv u lookup = .ok s)
    (hend : t.getLast? = some '\n') :
    fromTomlStrWithEnv (t ++ u) lookup =
      match s.markets.find? fun m => m.symbol ∈ r.markets.map MarketEntry.symbol with
      | none => .ok ⟨r.markets ++ s.markets⟩
      | some m => .error (.duplicateSymbol m.symbol) := by
  obtain ⟨vt, as, hvt, has, hr, hcheck⟩ := load_ok.mp ht
  obtain ⟨vu, bs, hvu, hbs, hs, hcheck'⟩ := load_ok.mp hu
  obtain ⟨hlast, hjoin⟩ := substituteFrom_join hend hvt hvu
  obtain ⟨raw, hraw, hfields⟩ := has.join hbs hlast
  have hentries := hr.join hs raw hfields
  rw [fromTomlStrWithEnv, substituteEnvVars, hjoin, ok_bind, hraw, ok_bind, hentries, ok_bind]
  exact checkEntries_join hcheck hcheck'

def sampleRegistry (symbol : Text) : MarketRegistry :=
  ⟨[⟨symbol, Vector.replicate 32 1, Vector.replicate 32 2, deriveKeeperLeaderLockPda, none⟩]⟩

theorem sampleRegistry_wellFormed {symbol : Text} (h : SymbolOk symbol) :
    (sampleRegistry symbol).WellFormed where
  nonempty := by simp [sampleRegistry]
  distinct := by simp [sampleRegistry]
  symbols := by simpa [sampleRegistry] using h

theorem solUsd_ok : SymbolOk "SOL-USD".toList where
  nonempty := by decide
  short := by decide
  ascii := by simp
  unquoted := by decide
  oneLine := by decide

theorem btcUsd_ok : SymbolOk "BTC-USD".toList where
  nonempty := by decide
  short := by decide
  ascii := by simp
  unquoted := by decide
  oneLine := by decide

/-- Two markets, and the same market twice. -/
theorem load_join_twice :
    fromTomlStrWithEnv ((sampleRegistry "SOL-USD".toList).toToml ++
      (sampleRegistry "BTC-USD".toList).toToml) (fun _ => none)
      = .ok ⟨(sampleRegistry "SOL-USD".toList).markets ++
        (sampleRegistry "BTC-USD".toList).markets⟩ ∧
    fromTomlStrWithEnv ((sampleRegistry "SOL-USD".toList).toToml ++
      (sampleRegistry "SOL-USD".toList).toToml) (fun _ => none)
      = .error (.duplicateSymbol "SOL-USD".toList) :=
  ⟨load_join ((sampleRegistry_wellFormed solUsd_ok).reload _)
      ((sampleRegistry_wellFormed btcUsd_ok).reload _) (by decide +kernel),
    load_join ((sampleRegistry_wellFormed solUsd_ok).reload _)
      ((sampleRegistry_wellFormed solUsd_ok).reload _) (by decide +kernel)⟩

end MarketRegistry

end MoleFinance.Registry
