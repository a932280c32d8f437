import MoleFinance.Registry.Load

/-! Which registries a text can have, and a text for each of them. -/
namespace MoleFinance.Registry
open Chars Call Decoder

/-- A symbol as the loader lets it through; a line cannot hold the others. -/
structure SymbolOk (symbol : Text) : Prop where
  nonempty : symbol ≠ []
  short : byteLength symbol ≤ 16
  ascii : ∀ c ∈ symbol, c.val < 128
  unquoted : '"' ∉ symbol
  oneLine : '\n' ∉ symbol

structure MarketRegistry.WellFormed (r : MarketRegistry) : Prop where
  nonempty : r.markets ≠ []
  distinct : (r.markets.map MarketEntry.symbol).Nodup
  symbols : ∀ m ∈ r.markets, SymbolOk m.symbol

def row (key value : Text) : Text := key ++ " = \"".toList ++ value ++ "\"".toList

def encodePubkey (key : Pubkey32) : Text := base58Encode key.toList

def headerText : Text := "[[markets]]".toList

def MarketEntry.fields (m : MarketEntry) : List (Text × Text) :=
  [("symbol".toList, m.symbol), ("program_id".toList, encodePubkey m.programId),
    ("market_pda".toList, encodePubkey m.marketPda),
    ("lock_pda".toList, encodePubkey m.lockPda)] ++
  (m.expectedLeader.map fun k => ("expected_leader".toList, encodePubkey k)).toList

def MarketEntry.rows (m : MarketEntry) : List Text :=
  headerText :: m.fields.map fun f => row f.1 f.2

def unlines (rows : List Text) : Text := rows.flatMap (· ++ ['\n'])

def escape (s : Text) : Text := s.flatMap fun c => if c = '$' then ['$', '$'] else [c]

def MarketRegistry.toToml (r : MarketRegistry) : Text :=
  escape (unlines (r.markets.flatMap MarketEntry.rows))

theorem substituteFrom_escape (lookup : Env) (i : Nat) (s : Text) :
    substituteFrom lookup i (escape s) = .ok s := by
  induction s generalizing i with
  | nil =>
    rw [escape, List.flatMap_nil, substituteFrom]
  | cons c cs ih =>
    have hsplit : escape (c :: cs) = (if c = '$' then ['$', '$'] else [c]) ++ escape cs := rfl
    rw [hsplit]
    by_cases hc : c = '$'
    · rw [if_pos hc, hc]
      refine (substituteFrom_escaped (escape cs)).trans ?_
      rw [ih]
      rfl
    · rw [if_neg hc]
      refine (substituteFrom_plain (escape cs) hc).trans ?_
      rw [ih]
      rfl

theorem lines_unlines {rows : List Text}
    (h : ∀ l ∈ rows, '\n' ∉ l ∧ l.getLast? ≠ some '\r') : lines (unlines rows) = rows := by
  induction rows with
  | nil => rfl
  | cons l ls ih =>
    have hsplit : unlines (l :: ls) = l ++ '\n' :: unlines ls := by simp [unlines]
    obtain ⟨hlf, hcr⟩ := h l List.mem_cons_self
    rw [hsplit, lines_line _ hlf hcr, ih fun x hx => h x (List.mem_cons_of_mem _ hx)]

structure BareKey (key : Text) : Prop where
  nonempty : key ≠ []
  bare : ∀ c ∈ key, isBareKeyChar c = true

theorem bareKeyChar_ne {c d : Char} (h : isBareKeyChar c = true) (hd : isBareKeyChar d = false) :
    c ≠ d := by
  rintro rfl
  exact absurd (h.symm.trans hd) (by decide)

theorem bareKeyChar_range {c : Char} (h : isBareKeyChar c = true) :
    45 ≤ c.toNat ∧ c.toNat ≤ 122 := by
  have hranges : isBareKeyChar c = (decide ('A'.val ≤ c.val ∧ c.val ≤ 'Z'.val) ||
      (decide ('a'.val ≤ c.val) && decide (c.val ≤ 'z'.val)) ||
      (decide ('0'.val ≤ c.val) && decide (c.val ≤ '9'.val)) || c == '_' || c == '-') := rfl
  rw [hranges] at h
  simp only [Bool.or_eq_true, Bool.and_eq_true, decide_eq_true_eq, beq_iff_eq,
    UInt32.le_iff_toNat_le] at h
  have hval : c.toNat = c.val.toNat := rfl
  rcases h with (((⟨h, h'⟩ | ⟨h, h'⟩) | ⟨h, h'⟩) | rfl) | rfl
  · simp at h h'
    omega
  · simp at h h'
    omega
  · simp at h h'
    omega
  · decide
  · decide

theorem bareKeyChar_visible {c : Char} (h : isBareKeyChar c = true) : isWhitespace c = false := by
  obtain ⟨hlow, hhigh⟩ := bareKeyChar_range h
  simp only [isWhitespace, Bool.or_eq_false_iff, Bool.and_eq_false_iff, decide_eq_false_iff_not,
    beq_eq_false_iff_ne]
  omega

theorem stripFrom_append (inStr : Bool) (prev : Option Char) {s : Text} (t : Text)
    (h : ∀ c ∈ s, c ≠ '"' ∧ (c = '#' → inStr = true)) :
    ∃ prev', stripFrom inStr prev (s ++ t) = s ++ stripFrom inStr prev' t := by
  induction s generalizing prev with
  | nil => exact ⟨prev, rfl⟩
  | cons c cs ih =>
    obtain ⟨hquote, hhash⟩ := h c List.mem_cons_self
    obtain ⟨prev', hrest⟩ := ih (some c) fun d hd => h d (List.mem_cons_of_mem _ hd)
    have hcut : ¬(c = '#' ∧ inStr = false) := by
      rintro ⟨hc, hs⟩
      exact absurd ((hhash hc).symm.trans hs) (by decide)
    exact ⟨prev', by rw [List.cons_append, stripFrom, if_neg (fun hc => hquote hc.1), if_neg hcut,
      hrest, List.cons_append]⟩

theorem row_eq (key value : Text) :
    row key value = key ++ ' ' :: '=' :: ' ' :: '"' :: (value ++ ['"']) := by
  simp [row]

theorem stripComment_row {key value : Text} (hkey : BareKey key) (hvalue : '"' ∉ value) :
    stripComment (row key value) = row key value := by
  rw [row_eq, stripComment]
  obtain ⟨p, hp⟩ := stripFrom_append false none
    (' ' :: '=' :: ' ' :: '"' :: (value ++ ['"'])) (s := key) fun c hc =>
      ⟨bareKeyChar_ne (hkey.bare c hc) (by decide),
        fun h => absurd h (bareKeyChar_ne (hkey.bare c hc) (by decide))⟩
  obtain ⟨q, hq⟩ := stripFrom_append true (some '"') ['"'] (s := value)
    fun c hc => ⟨fun h => hvalue (h ▸ hc), fun _ => rfl⟩
  have hopen : stripFrom false p (' ' :: '=' :: ' ' :: '"' :: (value ++ ['"']))
      = ' ' :: '=' :: ' ' :: '"' :: stripFrom true (some '"') (value ++ ['"']) := by
    simp [stripFrom]
  have hclose : stripFrom true q ['"'] = ['"'] := by
    by_cases hback : q = some '\\' <;> simp [stripFrom, hback]
  rw [hp, hopen, hq, hclose]

theorem trimmed_row {key : Text} (hkey : BareKey key) (value : Text) :
    Trimmed (row key value) where
  start := by
    intro c hc
    cases key with
    | nil => exact absurd rfl hkey.nonempty
    | cons k ks =>
      obtain rfl : k = c := Option.some_inj.mp hc
      exact bareKeyChar_visible (hkey.bare k List.mem_cons_self)
  finish := by
    intro c hc
    have hlast : (row key value).getLast? = some '"' := by
      rw [row_eq]
      simp [List.getLast?_cons]
    obtain rfl : '"' = c := Option.some_inj.mp (hlast.symm.trans hc)
    decide

theorem content_row {key value : Text} (hkey : BareKey key) (hvalue : '"' ∉ value) :
    content (row key value) = row key value := by
  rw [content, stripComment_row hkey hvalue, (trimmed_row hkey value).trim_eq]

theorem parseKeyValue_row {key value : Text} (hkey : BareKey key) (hvalue : '"' ∉ value)
    (lineNum : Nat) : parseKeyValue (row key value) lineNum = .ok (key, value) := by
  have heq : '=' ∉ key ++ [' '] := by
    intro hmem
    cases List.mem_append.mp hmem with
    | inl h => exact bareKeyChar_ne (hkey.bare _ h) (by decide : isBareKeyChar '=' = false) rfl
    | inr h => exact absurd h (by decide)
  have hkeyTrimmed : Trimmed key := by
    constructor
    · intro c hc
      exact bareKeyChar_visible (hkey.bare c (List.mem_of_mem_head? hc))
    · intro c hc
      exact bareKeyChar_visible (hkey.bare c (List.mem_of_mem_getLast? hc))
  have hrest : Trimmed ('"' :: (value ++ ['"'])) := by
    constructor
    · intro c hc
      obtain rfl : '"' = c := Option.some_inj.mp hc
      decide
    · intro c hc
      have hlast : ('"' :: (value ++ ['"'])).getLast? = some '"' := by simp [List.getLast?_cons]
      obtain rfl : '"' = c := Option.some_inj.mp (hlast.symm.trans hc)
      decide
  have hcut : cut '=' (row key value) = some (key ++ [' '], ' ' :: '"' :: (value ++ ['"'])) := by
    rw [row_eq]
    refine cut_eq_some.mpr ⟨by simp, heq⟩
  have hclose : cut '"' (value ++ ['"']) = some (value, []) := cut_append [] hvalue
  have hbare : key ≠ [] ∧ key.all isBareKeyChar = true :=
    ⟨hkey.nonempty, List.all_eq_true.mpr hkey.bare⟩
  simp only [parseKeyValue, cutOr, hcut, ok_bind, trim_space_end hkeyTrimmed hkey.nonempty,
    ensure_of hbare, trim_space hrest, List.head?_cons, List.tail_cons, hclose]
  rfl

theorem parseLines_append (ls ms : List Text) (n : Nat) (p : Progress) :
    parseLines n (ls ++ ms) p = parseLines n ls p >>= parseLines (n + ls.length) ms := by
  induction ls generalizing n p with
  | nil => rfl
  | cons l ls ih =>
    have hlen : n + (l :: ls).length = n + 1 + ls.length := by
      rw [List.length_cons]
      omega
    simp only [List.cons_append, parseLines, hlen]
    split
    · exact ih (n + 1) p
    · simp only [ih, bind_assoc]

structure FieldOk (f : Text × Text) : Prop where
  key : BareKey f.1
  value : '"' ∉ f.2

theorem row_ne_nil (key value : Text) : row key value ≠ [] := by
  rw [row_eq]
  simp

theorem parseContent_row {f : Text × Text} (hf : FieldOk f) {p : Progress} {t : RawTable}
    (ht : p.current = some t) (n : Nat) :
    parseContent n (row f.1 f.2) p
      = .ok { p with current := some { t with fields := t.fields ++ [f] } } := by
  have hhead : ∀ c ∈ (row f.1 f.2).head?, c ≠ '[' := by
    intro c hc
    obtain ⟨key, value⟩ := f
    cases key with
    | nil => exact absurd rfl hf.key.nonempty
    | cons k ks =>
      obtain rfl : k = c := Option.some_inj.mp hc
      exact bareKeyChar_ne (hf.key.bare k List.mem_cons_self) (by decide)
  have hopen : (row f.1 f.2).head? ≠ some '[' := fun h => hhead _ h rfl
  have htake : ¬((row f.1 f.2).take 2 = ['[', '['] ∧
      (row f.1 f.2).drop ((row f.1 f.2).length - 2) = [']', ']']) := by
    intro h
    have htwo : ((row f.1 f.2).take 2).head? = (row f.1 f.2).head? := by
      rw [List.head?_take, if_neg (by decide)]
    exact hopen (htwo.symm.trans (congrArg List.head? h.1))
  rw [parseContent, if_neg htake, if_neg hopen, parseKeyValue_row hf.key hf.value]
  simp only [ok_bind, ht]

theorem parseLines_fields {fields : List (Text × Text)} (h : ∀ f ∈ fields, FieldOk f)
    {p : Progress} {t : RawTable} (ht : p.current = some t) (n : Nat) :
    parseLines n (fields.map fun f => row f.1 f.2) p
      = .ok { p with current := some { t with fields := t.fields ++ fields } } := by
  induction fields generalizing p t n with
  | nil =>
    rw [List.map_nil, parseLines, List.append_nil, ← ht]
  | cons f fs ih =>
    obtain hf := h f List.mem_cons_self
    simp only [List.map_cons, parseLines, content_row hf.key hf.value,
      if_neg (row_ne_nil f.1 f.2), parseContent_row hf ht, ok_bind]
    refine (ih (fun x hx => h x (List.mem_cons_of_mem _ hx)) rfl (n + 1)).trans ?_
    simp

theorem parseContent_header (n : Nat) (p : Progress) :
    parseContent n headerText p = .ok ⟨p.flush, some ⟨n, []⟩⟩ := by
  rfl

theorem parseLines_table {fields : List (Text × Text)} (h : ∀ f ∈ fields, FieldOk f)
    (p : Progress) (n : Nat) :
    parseLines n (headerText :: fields.map fun f => row f.1 f.2) p
      = .ok ⟨p.flush, some ⟨n, fields⟩⟩ := by
  have hcontent : content headerText = headerText := by decide
  rw [parseLines, hcontent, if_neg (by decide), parseContent_header, ok_bind]
  exact parseLines_fields (p := ⟨p.flush, some ⟨n, []⟩⟩) (t := ⟨n, []⟩) h rfl (n + 1)

def Progress.rows (p : Progress) : List (List (Text × Text)) := p.flush.map RawTable.fields

theorem parseLines_tables {tables : List (List (Text × Text))}
    (h : ∀ fields ∈ tables, ∀ f ∈ fields, FieldOk f) (p : Progress) (n : Nat) :
    ∃ q, parseLines n (tables.flatMap fun fields =>
        headerText :: fields.map fun f => row f.1 f.2) p = .ok q ∧
      q.rows = p.rows ++ tables := by
  induction tables generalizing p n with
  | nil => exact ⟨p, rfl, (List.append_nil _).symm⟩
  | cons fields tables ih =>
    obtain ⟨q, hq, hrows⟩ := ih (fun x hx => h x (List.mem_cons_of_mem _ hx))
      ⟨p.flush, some ⟨n, fields⟩⟩ (n + (fields.length + 1))
    refine ⟨q, ?_, ?_⟩
    · rw [List.flatMap_cons, parseLines_append, parseLines_table (h fields List.mem_cons_self),
        ok_bind, ← hq]
      simp
    · rw [hrows]
      simp [Progress.rows, Progress.flush]

theorem base58Encode_visible (bytes : List UInt8) :
    ∀ c ∈ base58Encode bytes, c ∈ bs58Alphabet := by
  intro c hc
  obtain ⟨d, hd, rfl⟩ := List.mem_map.mp hc
  exact charOf_mem (Radix.recode_lt (by decide) d hd)

theorem decode_encode (bytes : List UInt8) : base58Decode (base58Encode bytes) = .ok bytes := by
  refine base58Decode_iff.mpr (List.filter_eq_self.mpr fun c hc => ?_)
  rw [bs58Alphabet_visible c (base58Encode_visible bytes c hc)]
  rfl

theorem decodePubkey32_encode (symbol : Text) (field : String) (key : Pubkey32) :
    decodePubkey32 symbol field (encodePubkey key) = .ok key := by
  rw [decodePubkey32, encodePubkey, decode_encode]
  exact dif_pos key.2

theorem encodePubkey_ne_nil (key : Pubkey32) : encodePubkey key ≠ [] := by
  intro h
  have hdecode := decode_encode key.toList
  rw [← encodePubkey, h] at hdecode
  have hnil : base58Decode [] = .ok [] := rfl
  have hlen := congrArg List.length (Except.ok.inj (hnil.symm.trans hdecode))
  simp at hlen

theorem validateSymbol_ok {symbol : Text} :
    validateSymbol symbol = .ok () ↔
      symbol ≠ [] ∧ byteLength symbol ≤ 16 ∧ ∀ c ∈ symbol, c.val < 128 := by
  constructor
  · intro h
    obtain ⟨_, hne, h⟩ := except_bind_ok.mp h
    obtain ⟨_, hlen, h⟩ := except_bind_ok.mp h
    refine ⟨ensure_ok.mp hne, ensure_ok.mp hlen, fun c hc => ?_⟩
    exact of_decide_eq_true (List.all_eq_true.mp (ensure_ok.mp h) c hc)
  · rintro ⟨hne, hlen, hascii⟩
    have hall : symbol.all (·.val < 128) = true :=
      List.all_eq_true.mpr fun c hc => decide_eq_true (hascii c hc)
    rw [validateSymbol, ensure_of hne, ok_bind, ensure_of hlen, ok_bind, ensure_of hall]

def MarketEntry.values (m : MarketEntry) : EntryValues where
  symbol := some m.symbol
  programId := some (encodePubkey m.programId)
  marketPda := some (encodePubkey m.marketPda)
  lockPda := some (encodePubkey m.lockPda)
  expectedLeader := m.expectedLeader.map encodePubkey

theorem gather_fields (index headerLine : Nat) (m : MarketEntry) :
    gather index headerLine m.fields {} = .ok m.values := by
  rw [MarketEntry.fields, MarketEntry.values]
  cases m.expectedLeader with
  | none => rfl
  | some k => rfl

theorem build_values (index : Nat) {m : MarketEntry} (h : SymbolOk m.symbol) :
    m.values.build index = .ok m := by
  have hsymbol : validateSymbol m.symbol = .ok () :=
    validateSymbol_ok.mpr ⟨h.nonempty, h.short, h.ascii⟩
  obtain ⟨symbol, programId, marketPda, lockPda, expectedLeader⟩ := m
  cases expectedLeader with
  | none =>
    simp only [EntryValues.build, MarketEntry.values, require, ok_bind, hsymbol, decodeLock,
      decodePubkey32_encode, decodeLeader, Option.map_none]
    rfl
  | some k =>
    simp only [EntryValues.build, MarketEntry.values, require, ok_bind, hsymbol, decodeLock,
      decodePubkey32_encode, decodeLeader, Option.map_some, if_neg (encodePubkey_ne_nil k)]
    rfl

theorem buildEntries_fields {tables : List RawTable} {markets : List MarketEntry}
    (h : ∀ m ∈ markets, SymbolOk m.symbol)
    (hrows : tables.map RawTable.fields = markets.map MarketEntry.fields) (index : Nat) :
    buildEntries index tables = .ok markets := by
  induction tables generalizing markets index with
  | nil =>
    have hnil : markets = [] := List.map_eq_nil_iff.mp hrows.symm
    rw [hnil]
    rfl
  | cons t ts ih =>
    cases markets with
    | nil => cases hrows
    | cons m ms =>
      rw [List.map_cons, List.map_cons, List.cons.injEq] at hrows
      have hentry : buildEntry index t = .ok m := by
        rw [buildEntry, hrows.1, gather_fields, ok_bind]
        exact build_values index (h m List.mem_cons_self)
      rw [buildEntries, hentry, ok_bind, ih (fun x hx => h x (List.mem_cons_of_mem _ hx)) hrows.2]
      rfl

theorem firstDuplicate_none {seen : List Text} {markets : List MarketEntry} :
    firstDuplicate seen markets = none ↔
      (∀ m ∈ markets, m.symbol ∉ seen) ∧ (markets.map MarketEntry.symbol).Nodup := by
  induction markets generalizing seen with
  | nil => simp [firstDuplicate]
  | cons m ms ih =>
    rw [firstDuplicate]
    by_cases hm : m.symbol ∈ seen
    · simp [hm]
    · rw [if_neg hm, ih]
      simp only [List.mem_cons, not_or, List.map_cons, List.nodup_cons, List.mem_map,
        forall_eq_or_imp]
      constructor
      · rintro ⟨hseen, hnodup⟩
        refine ⟨⟨hm, fun x hx => (hseen x hx).2⟩, ?_, hnodup⟩
        rintro ⟨x, hx, hsym⟩
        exact (hseen x hx).1 hsym
      · rintro ⟨⟨-, hseen⟩, hfresh, hnodup⟩
        exact ⟨fun x hx => ⟨fun hsym => hfresh ⟨x, hx, hsym⟩, hseen x hx⟩, hnodup⟩

theorem checkEntries_ok {markets : List MarketEntry} {r : MarketRegistry} :
    checkEntries markets = .ok r ↔
      r.markets = markets ∧ markets ≠ [] ∧ (markets.map MarketEntry.symbol).Nodup := by
  have hdup := @firstDuplicate_none [] markets
  simp only [List.not_mem_nil, not_false_eq_true, implies_true, true_and] at hdup
  rw [checkEntries, ← hdup]
  cases firstDuplicate [] markets with
  | some s => simp
  | none =>
    by_cases hne : markets = []
    · simp [hne]
    · obtain ⟨ms⟩ := r
      simp [hne, eq_comm]

theorem encodePubkey_avoids {d : Char} (hd : d ∉ bs58Alphabet) (key : Pubkey32) :
    d ∉ encodePubkey key := fun h => hd (base58Encode_visible key.toList d h)

theorem MarketEntry.fields_avoid {m : MarketEntry} {d : Char} (hd : d ∉ bs58Alphabet)
    (hsymbol : d ∉ m.symbol) : ∀ f ∈ m.fields, d ∉ f.2 := by
  intro f hf
  simp only [fields, List.cons_append, List.nil_append, List.mem_cons, Option.mem_toList,
    Option.map_eq_some_iff] at hf
  obtain rfl | rfl | rfl | rfl | ⟨k, -, rfl⟩ := hf
  · exact hsymbol
  all_goals exact encodePubkey_avoids hd _

theorem MarketEntry.fields_bare (m : MarketEntry) : ∀ f ∈ m.fields, BareKey f.1 := by
  intro f hf
  simp only [fields, List.cons_append, List.nil_append, List.mem_cons, Option.mem_toList,
    Option.map_eq_some_iff] at hf
  obtain rfl | rfl | rfl | rfl | ⟨k, -, rfl⟩ := hf
  all_goals
    dsimp only
    exact ⟨by decide, List.all_eq_true.mp (by decide)⟩

theorem MarketEntry.fields_ok {m : MarketEntry} (h : SymbolOk m.symbol) :
    ∀ f ∈ m.fields, FieldOk f := fun f hf =>
  ⟨m.fields_bare f hf, m.fields_avoid (by decide) h.unquoted f hf⟩

theorem row_oneLine {key value : Text} (hkey : BareKey key) (hvalue : '\n' ∉ value) :
    '\n' ∉ row key value ∧ (row key value).getLast? ≠ some '\r' := by
  constructor
  · intro h
    rw [row_eq] at h
    simp only [List.mem_append, List.mem_cons, List.not_mem_nil, or_false] at h
    obtain h | h | h | h | h | h | h := h
    · exact bareKeyChar_ne (hkey.bare _ h) (by decide : isBareKeyChar '\n' = false) rfl
    · exact absurd h (by decide)
    · exact absurd h (by decide)
    · exact absurd h (by decide)
    · exact absurd h (by decide)
    · exact hvalue h
    · exact absurd h (by decide)
  · rw [row_eq]
    simp [List.getLast?_cons]

theorem MarketEntry.rows_oneLine {m : MarketEntry} (h : SymbolOk m.symbol) :
    ∀ l ∈ m.rows, '\n' ∉ l ∧ l.getLast? ≠ some '\r' := by
  intro l hl
  cases hl with
  | head => decide
  | tail _ hl =>
    obtain ⟨f, hf, rfl⟩ := List.mem_map.mp hl
    exact row_oneLine (m.fields_bare f hf) (m.fields_avoid (by decide) h.oneLine f hf)

theorem MarketRegistry.WellFormed.reload {r : MarketRegistry} (h : r.WellFormed) (lookup : Env) :
    fromTomlStrWithEnv r.toToml lookup = .ok r := by
  have hlines : lines (unlines (r.markets.flatMap MarketEntry.rows))
      = r.markets.flatMap MarketEntry.rows := by
    refine lines_unlines fun l hl => ?_
    obtain ⟨m, hm, hl⟩ := List.mem_flatMap.mp hl
    exact m.rows_oneLine (h.symbols m hm) l hl
  have hfields : ∀ fields ∈ r.markets.map MarketEntry.fields, ∀ f ∈ fields, FieldOk f := by
    intro fields hfields
    obtain ⟨m, hm, rfl⟩ := List.mem_map.mp hfields
    exact m.fields_ok (h.symbols m hm)
  obtain ⟨q, hq, hrows⟩ := parseLines_tables hfields {} 1
  rw [List.flatMap_map] at hq
  have hentries : buildEntries 0 q.flush = .ok r.markets :=
    buildEntries_fields h.symbols (by simpa [Progress.rows, Progress.flush] using hrows) 0
  rw [fromTomlStrWithEnv, toToml, substituteEnvVars, substituteFrom_escape, ok_bind,
    parseMarketTables, hlines]
  unfold MarketEntry.rows
  rw [hq]
  change buildEntries 0 q.flush >>= checkEntries = .ok r
  rw [hentries, ok_bind]
  exact checkEntries_ok.mpr ⟨rfl, h.nonempty, h.distinct⟩

def InLine (value : Text) : Prop := '"' ∉ value ∧ '\n' ∉ value

theorem stripFrom_subset (line : Text) :
    ∀ inStr prev, ∀ c ∈ stripFrom inStr prev line, c ∈ line := by
  induction line with
  | nil => simp [stripFrom]
  | cons d ds ih =>
    intro inStr prev c hc
    rw [stripFrom] at hc
    split at hc
    · cases hc with
      | head => exact List.mem_cons_self
      | tail _ hc => exact List.mem_cons_of_mem _ (ih _ _ c hc)
    split at hc
    · cases hc
    · cases hc with
      | head => exact List.mem_cons_self
      | tail _ hc => exact List.mem_cons_of_mem _ (ih _ _ c hc)

theorem content_subset {line : Text} {c : Char} (h : c ∈ content line) : c ∈ line :=
  stripFrom_subset line _ _ c (trim_subset h)

theorem cutOr_ok {c : Char} {s : Text} {e : RegistryError} {p : Text × Text} :
    cutOr c s e = .ok p ↔ s = p.1 ++ c :: p.2 ∧ c ∉ p.1 := by
  rw [← cut_eq_some, cutOr]
  cases cut c s with
  | none => simp
  | some q => simp

theorem parseKeyValue_ok {line key value : Text} {n : Nat}
    (h : parseKeyValue line n = .ok (key, value)) : '"' ∉ value ∧ ∀ c ∈ value, c ∈ line := by
  obtain ⟨⟨before, behind⟩, hcut, h⟩ := except_bind_ok.mp h
  obtain ⟨_, -, h⟩ := except_bind_ok.mp h
  obtain ⟨_, -, h⟩ := except_bind_ok.mp h
  obtain ⟨⟨v, tail⟩, hclose, h⟩ := except_bind_ok.mp h
  obtain ⟨_, -, h⟩ := except_bind_ok.mp h
  cases h
  obtain ⟨hrest, hquote⟩ := cutOr_ok.mp hclose
  obtain ⟨rfl, -⟩ := cutOr_ok.mp hcut
  refine ⟨hquote, fun c hc => ?_⟩
  have hmem : c ∈ (trim behind).tail := by
    rw [hrest]
    exact List.mem_append_left _ hc
  exact List.mem_append_right _ (List.mem_cons_of_mem _ (trim_subset (List.mem_of_mem_tail hmem)))

def Progress.Clean (p : Progress) : Prop := ∀ t ∈ p.flush, ∀ f ∈ t.fields, InLine f.2

theorem parseContent_clean {n : Nat} {line : Text} {p q : Progress} (hp : p.Clean)
    (hline : '\n' ∉ line) (h : parseContent n line p = .ok q) : q.Clean := by
  rw [parseContent] at h
  split at h
  · obtain ⟨_, -, h⟩ := except_bind_ok.mp h
    cases h
    intro t ht
    simp only [Progress.flush, List.mem_append, Option.toList_some, List.mem_singleton] at ht
    cases ht with
    | inl ht => exact hp t (by simpa [Progress.flush] using ht)
    | inr ht =>
      subst ht
      simp
  split at h
  · cases h
  obtain ⟨⟨key, value⟩, hkv, h⟩ := except_bind_ok.mp h
  obtain ⟨hquote, hsub⟩ := parseKeyValue_ok hkv
  obtain ⟨tables, current⟩ := p
  cases current with
  | none => cases h
  | some t0 =>
    cases h
    intro t ht f hf
    simp only [Progress.flush, List.mem_append, Option.toList_some, List.mem_singleton] at ht
    cases ht with
    | inl ht => exact hp t (by simp [Progress.flush, ht]) f hf
    | inr ht =>
      subst ht
      cases List.mem_append.mp hf with
      | inl hf => exact hp t0 (by simp [Progress.flush]) f hf
      | inr hf =>
        rw [List.mem_singleton.mp hf]
        exact ⟨hquote, fun h => hline (hsub _ h)⟩

theorem parseLines_clean {n : Nat} {ls : List Text} {p q : Progress} (hp : p.Clean)
    (hls : ∀ l ∈ ls, '\n' ∉ l) (h : parseLines n ls p = .ok q) : q.Clean := by
  induction ls generalizing n p with
  | nil =>
    cases h
    exact hp
  | cons l ls ih =>
    have htail : ∀ x ∈ ls, '\n' ∉ x := fun x hx => hls x (List.mem_cons_of_mem _ hx)
    rw [parseLines] at h
    split at h
    · exact ih hp htail h
    · obtain ⟨p', hp', h⟩ := except_bind_ok.mp h
      have hl : '\n' ∉ content l := fun hc => hls l List.mem_cons_self (content_subset hc)
      exact ih (parseContent_clean hp hl hp') htail h

theorem gather_symbol {index headerLine : Nat} {fields : List (Text × Text)} {v w : EntryValues}
    (hfields : ∀ f ∈ fields, InLine f.2) (hv : ∀ s, v.symbol = some s → InLine s)
    (h : gather index headerLine fields v = .ok w) : ∀ s, w.symbol = some s → InLine s := by
  induction fields generalizing v with
  | nil =>
    cases h
    exact hv
  | cons f fs ih =>
    obtain ⟨key, value⟩ := f
    rw [gather] at h
    split at h
    · rename_i v' hset
      refine ih (fun x hx => hfields x (List.mem_cons_of_mem _ hx)) (fun s hs => ?_) h
      rw [EntryValues.set] at hset
      split at hset
      · cases hset
        cases hs
        exact hfields _ List.mem_cons_self
      repeat' split at hset
      all_goals cases hset
      all_goals exact hv s hs
    · cases h

theorem require_ok {index : Nat} {key : String} {value : Option Text} {v : Text} :
    require index key value = .ok v ↔ value = some v := by
  cases value <;> simp [require]

theorem buildEntry_symbol {index : Nat} {t : RawTable} {m : MarketEntry}
    (ht : ∀ f ∈ t.fields, InLine f.2) (h : buildEntry index t = .ok m) : SymbolOk m.symbol := by
  obtain ⟨v, hv, h⟩ := except_bind_ok.mp h
  obtain ⟨symbol, hsymbol, h⟩ := except_bind_ok.mp h
  obtain ⟨_, hvalid, h⟩ := except_bind_ok.mp h
  obtain ⟨programIdRaw, -, h⟩ := except_bind_ok.mp h
  obtain ⟨marketPdaRaw, -, h⟩ := except_bind_ok.mp h
  obtain ⟨programId, -, h⟩ := except_bind_ok.mp h
  obtain ⟨marketPda, -, h⟩ := except_bind_ok.mp h
  obtain ⟨lockPda, -, h⟩ := except_bind_ok.mp h
  obtain ⟨expectedLeader, -, h⟩ := except_bind_ok.mp h
  cases h
  obtain ⟨hne, hlen, hascii⟩ := validateSymbol_ok.mp hvalid
  have hstart : ∀ s, ({} : EntryValues).symbol = some s → InLine s := by
    intro s hs
    cases hs
  obtain ⟨hquote, hline⟩ := gather_symbol ht hstart hv symbol (require_ok.mp hsymbol)
  exact ⟨hne, hlen, hascii, hquote, hline⟩

theorem buildEntries_symbols {tables : List RawTable} {index : Nat} {ms : List MarketEntry}
    (ht : ∀ t ∈ tables, ∀ f ∈ t.fields, InLine f.2) (h : buildEntries index tables = .ok ms) :
    ∀ m ∈ ms, SymbolOk m.symbol := by
  induction tables generalizing index ms with
  | nil =>
    cases h
    simp
  | cons t ts ih =>
    obtain ⟨m, hm, h⟩ := except_bind_ok.mp h
    obtain ⟨rest, hrest, h⟩ := except_bind_ok.mp h
    cases h
    intro x hx
    cases hx with
    | head => exact buildEntry_symbol (ht t List.mem_cons_self) hm
    | tail _ hx => exact ih (fun y hy => ht y (List.mem_cons_of_mem _ hy)) hrest x hx

theorem MarketRegistry.wellFormed_of_load {input : Text} {lookup : Env} {r : MarketRegistry}
    (h : fromTomlStrWithEnv input lookup = .ok r) : r.WellFormed := by
  obtain ⟨resolved, -, h⟩ := except_bind_ok.mp h
  obtain ⟨tables, htables, h⟩ := except_bind_ok.mp h
  obtain ⟨ms, hms, hcheck⟩ := except_bind_ok.mp h
  obtain ⟨p, hp, rfl⟩ := except_map_ok.mp htables
  obtain ⟨hmarkets, hne, hnodup⟩ := checkEntries_ok.mp hcheck
  have hclean : p.Clean := parseLines_clean (p := {}) (by simp [Progress.Clean, Progress.flush])
    lines_mem hp
  rw [← hmarkets] at hne hnodup
  refine ⟨hne, hnodup, ?_⟩
  rw [hmarkets]
  exact buildEntries_symbols hclean hms

/-- The registries that some text has are the well-formed ones, and each is read back from its
canonical text, whatever the environment. -/
theorem MarketRegistry.loadable (r : MarketRegistry) :
    ((∃ input lookup, fromTomlStrWithEnv input lookup = .ok r) ↔ r.WellFormed) ∧
      (r.WellFormed ↔ ∀ lookup, fromTomlStrWithEnv r.toToml lookup = .ok r) := by
  constructor
  · constructor
    · rintro ⟨input, lookup, h⟩
      exact wellFormed_of_load h
    · intro h
      exact ⟨r.toToml, fun _ => none, h.reload _⟩
  · constructor
    · intro h lookup
      exact h.reload lookup
    · intro h
      exact wellFormed_of_load (h fun _ => none)

end MoleFinance.Registry
