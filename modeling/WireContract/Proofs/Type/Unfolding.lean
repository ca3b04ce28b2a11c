import Mathlib.Data.Fintype.Pigeonhole
import Mathlib.Order.Monotone.Basic
import Mathlib.Order.WellFounded
import WireContract.Proofs.Type.AliasSearch
import WireContract.Proofs.Type.Soundness
import WireContract.Proofs.Type.Substitution

/-!
# Unfolding the head of a type

A reference to an alias stands for the body of the alias with the arguments in place, and a union
or an optional type for the types it is made of. Where following this never ends, no value can be
checked against the type, and it has no meaning for the client's compiler.

The search for cycles of aliases follows bodies as they are written. Unfolding puts arguments in,
so that a body whose head is a type parameter goes on with an argument of the reference: this is
the one way in which unfolding gets to definitions that the search does not see.

* `Ty.Unfolds`, `Ty.UnfoldsForever`: one step, and no end of steps;
* `Ty.Surfaces`, `Ty.LeadsTo`: the parameters, and the references, that unfolding a type as it is
  written brings to its head;
* `TypeTable.Expands`: from an alias to the references that its body leads to;
* `acc_of_leadsTo`: unfolding ends where expanding does, however the arguments grow on the way;
* `unfoldsForever_of_expands`: a reference to an alias that comes back to itself is unfolded
  forever;
* `unfoldsForever_iff`: so a type is unfolded forever exactly if it leads to such an alias;
* `expands_iff_headStep`: where no alias brings a parameter to its head, expanding is what the
  search for cycles follows.
-/

namespace WireContract

open Relation

/-! ## 1. Unfolding -/

namespace Ty

/-- One step at the head of a type: a reference to an alias becomes the alias's body with the
    arguments in place, a union one of its members, an optional type what it is made of. -/
inductive Unfolds (types : TypeTable) : Ty → Ty → Prop where
  | alias (target : DefId) (args : List Ty) (a : AliasDef)
      (h : types.get target = .ok (.alias a)) :
      Unfolds types (.named target args) (a.ty.substitute (bind a.generics args))
  | member (members : List Ty) (member : Ty) (h : member ∈ members) :
      Unfolds types (.union members) member
  | inner (inner : Ty) : Unfolds types (.optional inner) inner

/-- Whether there is an infinite row of steps at the head of a type. -/
def UnfoldsForever (types : TypeTable) (ty : Ty) : Prop :=
  ∃ f : Nat → Ty, f 0 = ty ∧ ∀ n, Unfolds types (f n) (f (n + 1))

/-- Whether an occurrence of a parameter in a type comes to the head when the type is unfolded: it
    stands there, or it is in an argument for a parameter that does so in an alias. -/
inductive Surfaces (types : TypeTable) : Ty → String → Prop where
  | generic (name : String) : Surfaces types (.generic name) name
  | member (members : List Ty) (member : Ty) (name : String) (hm : member ∈ members)
      (h : Surfaces types member name) : Surfaces types (.union members) name
  | inner (inner : Ty) (name : String) (h : Surfaces types inner name) :
      Surfaces types (.optional inner) name
  | argument (target : DefId) (args : List Ty) (a : AliasDef) (param : String) (arg : Ty)
      (name : String) (ha : types.get target = .ok (.alias a)) (hp : Surfaces types a.ty param)
      (harg : (bind a.generics args).get? param = some arg) (h : Surfaces types arg name) :
      Surfaces types (.named target args) name

/-- Whether an occurrence of a reference in a type comes to the head when the type is unfolded. -/
inductive LeadsTo (types : TypeTable) : Ty → DefId → Prop where
  | named (target : DefId) (args : List Ty) : LeadsTo types (.named target args) target
  | member (members : List Ty) (member : Ty) (id : DefId) (hm : member ∈ members)
      (h : LeadsTo types member id) : LeadsTo types (.union members) id
  | inner (inner : Ty) (id : DefId) (h : LeadsTo types inner id) :
      LeadsTo types (.optional inner) id
  | argument (target : DefId) (args : List Ty) (a : AliasDef) (param : String) (arg : Ty)
      (id : DefId) (ha : types.get target = .ok (.alias a)) (hp : Surfaces types a.ty param)
      (harg : (bind a.generics args).get? param = some arg) (h : LeadsTo types arg id) :
      LeadsTo types (.named target args) id

section Steps

variable {types : TypeTable}

/-- A type can be unfolded forever exactly if it is not in the part of the relation that is
    well-founded. -/
theorem unfoldsForever_iff_not_acc {ty : Ty} :
    UnfoldsForever types ty ↔ ¬ Acc (flip (Unfolds types)) ty := by
  rw [not_acc_iff_exists_descending_chain]
  rfl

/-- What comes to something that is unfolded forever is unfolded forever itself. -/
theorem UnfoldsForever.of_steps {ty next : Ty} (hsteps : ReflTransGen (Unfolds types) ty next)
    (h : UnfoldsForever types next) : UnfoldsForever types ty := by
  rw [unfoldsForever_iff_not_acc] at h ⊢
  intro hacc
  refine h ?_
  clear h
  induction hsteps with
  | refl => exact hacc
  | tail _ hstep ih => exact ih.inv hstep

theorem acc_generic (name : String) : Acc (flip (Unfolds types)) (.generic name) :=
  ⟨_, fun _ h => by cases h⟩

/-- What a type leads to is mentioned in it. -/
theorem LeadsTo.mem_mentions {ty : Ty} {id : DefId} (h : LeadsTo types ty id) :
    id ∈ ty.mentions := by
  induction h with
  | named target args => simp
  | member members member id hm _ ih =>
    rw [mentions_union]
    exact List.mem_flatMap_of_mem hm ih
  | inner inner id _ ih =>
    rwa [mentions_optional]
  | argument target args a param arg id _ _ harg _ ih =>
    rw [mentions_named]
    exact List.mem_cons_of_mem _ (List.mem_flatMap_of_mem (bind_get?_mem harg) ih)

/-- What stands at the top of a type is what it leads to without an argument being looked at. -/
theorem leadsTo_of_mem_heads {ty : Ty} {id : DefId} (h : id ∈ ty.heads) :
    LeadsTo types ty id := by
  induction ty using Ty.ind with
  | named target args _ =>
    obtain rfl := List.mem_singleton.mp h
    exact .named id args
  | union members ih =>
    rw [heads, headsOfAll_eq_flatMap] at h
    obtain ⟨member, hmember, h⟩ := List.mem_flatMap.mp h
    exact .member members member id hmember (ih member hmember h)
  | optional inner ih => exact .inner inner id (ih h)
  | _ => exact absurd h List.not_mem_nil

/-- Where no reference at the top of a type is to an alias that brings a parameter to its head,
    the type leads to what stands at its top and to nothing else. -/
theorem LeadsTo.mem_heads {ty : Ty} {id : DefId} (h : LeadsTo types ty id)
    (hnone : ∀ target ∈ ty.heads, ∀ a, types.get target = .ok (.alias a) →
      ∀ param, ¬ Surfaces types a.ty param) : id ∈ ty.heads := by
  induction h with
  | named target args => exact List.mem_singleton_self target
  | member members member id hm _ ih =>
    rw [heads, headsOfAll_eq_flatMap] at hnone ⊢
    refine List.mem_flatMap_of_mem hm (ih fun target ht => ?_)
    exact hnone target (List.mem_flatMap_of_mem hm ht)
  | inner inner id _ ih => exact ih hnone
  | argument target args a param arg id ha hp _ _ _ =>
    exact absurd hp (hnone target (List.mem_singleton_self target) a ha param)

end Steps

/-! ## 2. Unfolding with arguments in place -/

section Arguments

variable {types : TypeTable}

/-- A parameter that comes to the head is unfolded to what is put in its place. -/
theorem Surfaces.unfolds {ty : Ty} {name : String} (h : Surfaces types ty name) (b : Bindings) :
    ReflTransGen (Unfolds types) (ty.substitute b) ((Ty.generic name).substitute b) := by
  induction h generalizing b with
  | generic name => exact .refl
  | member members member name hm _ ih =>
    rw [substitute_union]
    exact .head (.member _ _ (List.mem_map_of_mem hm)) (ih b)
  | inner inner name _ ih =>
    rw [substitute]
    exact .head (.inner _) (ih b)
  | argument target args a param arg name ha _ harg _ ihbody iharg =>
    have hparam : (bind a.generics (args.map (substitute b))).get? param =
        some (arg.substitute b) := by rw [bind_map_get?, harg, Option.map_some]
    have hbody := ihbody (bind a.generics (args.map (substitute b)))
    rw [substitute_generic_of_some hparam] at hbody
    rw [substitute_named]
    exact .head (.alias target _ a ha) (hbody.trans (iharg b))

/-- A reference that comes to the head is unfolded to, with some arguments. -/
theorem LeadsTo.unfolds {ty : Ty} {id : DefId} (h : LeadsTo types ty id) (b : Bindings) :
    ∃ args, ReflTransGen (Unfolds types) (ty.substitute b) (.named id args) := by
  induction h generalizing b with
  | named target args =>
    rw [substitute_named]
    exact ⟨_, .refl⟩
  | member members member id hm _ ih =>
    obtain ⟨args, hargs⟩ := ih b
    rw [substitute_union]
    exact ⟨args, .head (.member _ _ (List.mem_map_of_mem hm)) hargs⟩
  | inner inner id _ ih =>
    obtain ⟨args, hargs⟩ := ih b
    rw [substitute]
    exact ⟨args, .head (.inner _) hargs⟩
  | argument target args a param arg id ha hp harg _ ih =>
    obtain ⟨others, hothers⟩ := ih b
    have hparam : (bind a.generics (args.map (substitute b))).get? param =
        some (arg.substitute b) := by rw [bind_map_get?, harg, Option.map_some]
    have hbody := hp.unfolds (bind a.generics (args.map (substitute b)))
    rw [substitute_generic_of_some hparam] at hbody
    rw [substitute_named]
    exact ⟨others, .head (.alias target _ a ha) (hbody.trans hothers)⟩

end Arguments

end Ty

/-! ## 3. Expanding aliases -/

namespace TypeTable

/-- One step from an alias to a reference that unfolding its body, as it is written, leads to. -/
def Expands (t : TypeTable) (current next : DefId) : Prop :=
  ∃ a, t.get current = .ok (.alias a) ∧ a.ty.LeadsTo t next

/-- Whether unfolding a reference to a definition ends, as long as it ends for the arguments that
    the body brings to its head. -/
def Ends (t : TypeTable) (id : DefId) : Prop :=
  ∀ args, (∀ a param arg, t.get id = .ok (.alias a) → a.ty.Surfaces t param →
      (Ty.bind a.generics args).get? param = some arg → Acc (flip (Ty.Unfolds t)) arg) →
    Acc (flip (Ty.Unfolds t)) (.named id args)

section Expansion

variable {t : TypeTable}

theorem expands_of_headStep {current next : DefId} (h : t.HeadStep current next) :
    t.Expands current next := by
  obtain ⟨a, ha, hnext⟩ := h
  exact ⟨a, ha, Ty.leadsTo_of_mem_heads hnext⟩

/-- Where no alias that is next to an alias brings a parameter to its head, expanding is what the
    search for cycles follows. -/
theorem expands_iff_headStep {current next : DefId}
    (h : ∀ target a, t.HeadStep current target → t.get target = .ok (.alias a) →
      ∀ param, ¬ a.ty.Surfaces t param) :
    t.Expands current next ↔ t.HeadStep current next := by
  constructor
  · rintro ⟨a, ha, hnext⟩
    exact ⟨a, ha, hnext.mem_heads fun target ht b hb => h target b ⟨a, ha, ht⟩ hb⟩
  · exact expands_of_headStep

/-- **Unfolding a type with arguments in place ends** if it ends for references to what the
    type leads to and for what is put in for the parameters that come to its head. The induction
    is on the type as it is written, where an argument is smaller than the reference. -/
theorem acc_substitute {b : Ty.Bindings} {ty : Ty} (hids : ∀ id, ty.LeadsTo t id → t.Ends id)
    (hparams : ∀ name, ty.Surfaces t name →
      Acc (flip (Ty.Unfolds t)) ((Ty.generic name).substitute b)) :
    Acc (flip (Ty.Unfolds t)) (ty.substitute b) := by
  induction ty using Ty.ind with
  | generic name => exact hparams name (.generic name)
  | named target args ih =>
    rw [Ty.substitute_named]
    refine hids target (.named target args) _ fun a param arg ha hp harg => ?_
    rw [Ty.bind_map_get?, Option.map_eq_some_iff] at harg
    obtain ⟨written, hwritten, rfl⟩ := harg
    refine ih written (Ty.bind_get?_mem hwritten) (fun id hid => ?_) fun name hname => ?_
    · exact hids id (.argument target args a param written id ha hp hwritten hid)
    · exact hparams name (.argument target args a param written name ha hp hwritten hname)
  | union members ih =>
    rw [Ty.substitute_union]
    refine ⟨_, fun next hnext => ?_⟩
    cases hnext with
    | member _ _ hmem =>
      obtain ⟨member, hm, rfl⟩ := List.mem_map.mp hmem
      exact ih member hm (fun id hid => hids id (.member members member id hm hid))
        fun name hname => hparams name (.member members member name hm hname)
  | optional inner ih =>
    rw [Ty.substitute]
    refine ⟨_, fun next hnext => ?_⟩
    cases hnext with
    | inner _ =>
      exact ih (fun id hid => hids id (.inner inner id hid))
        fun name hname => hparams name (.inner inner name hname)
  | container kind elems variadic _ =>
    rw [Ty.substitute_container]
    exact ⟨_, fun _ h => by cases h⟩
  | _ => exact ⟨_, fun _ h => by cases h⟩

/-- Unfolding references to a definition ends if expanding it does. -/
theorem ends_of_acc {id : DefId} (h : Acc (flip t.Expands) id) : t.Ends id := by
  induction h with
  | intro id _ ih =>
    intro args hargs
    refine ⟨_, fun next hnext => ?_⟩
    cases hnext with
    | «alias» _ _ a ha =>
      refine acc_substitute (fun other hother => ih other ⟨a, ha, hother⟩) fun name hname => ?_
      cases hget : (Ty.bind a.generics args).get? name with
      | none =>
        rw [Ty.substitute_generic_of_none hget]
        exact Ty.acc_generic name
      | some arg =>
        rw [Ty.substitute_generic_of_some hget]
        exact hargs a name arg ha hname hget

/-- **Unfolding a type ends if expanding what it leads to does.** -/
theorem acc_of_leadsTo {ty : Ty} (h : ∀ id, ty.LeadsTo t id → Acc (flip t.Expands) id) :
    Acc (flip (Ty.Unfolds t)) ty := by
  rw [← Ty.substitute_nil ty]
  exact acc_substitute (fun id hid => ends_of_acc (h id hid)) fun name _ => Ty.acc_generic name

/-- Expanding an alias is unfolding references to it, whatever their arguments. -/
theorem unfolds_of_expands {current next : DefId} (h : TransGen t.Expands current next)
    (args : List Ty) :
    ∃ others, TransGen (Ty.Unfolds t) (.named current args) (.named next others) := by
  have hone : ∀ {id other}, t.Expands id other → ∀ args, ∃ others,
      TransGen (Ty.Unfolds t) (.named id args) (.named other others) := by
    rintro id other ⟨a, ha, hother⟩ args
    obtain ⟨others, hsteps⟩ := hother.unfolds (Ty.bind a.generics args)
    exact ⟨others, .head' (.alias id args a ha) hsteps⟩
  induction h with
  | single hstep => exact hone hstep args
  | tail _ hstep ih =>
    obtain ⟨between, hfirst⟩ := ih
    obtain ⟨others, hlast⟩ := hone hstep between
    exact ⟨others, hfirst.trans hlast⟩

/-- **A reference to an alias that comes back to itself is unfolded forever**: what cannot be would
    lead to a reference to the same alias that cannot be either. -/
theorem unfoldsForever_of_expands {id : DefId} (h : TransGen t.Expands id id) (args : List Ty) :
    Ty.UnfoldsForever t (.named id args) := by
  rw [Ty.unfoldsForever_iff_not_acc]
  intro hacc
  have hall : ∀ ty, Acc (TransGen (flip (Ty.Unfolds t))) ty → ∀ args, ty ≠ .named id args := by
    intro ty hty
    induction hty with
    | intro ty _ ih =>
      rintro args rfl
      obtain ⟨others, hsteps⟩ := unfolds_of_expands h args
      exact ih _ (transGen_swap.mpr hsteps) others rfl
  exact hall _ hacc.transGen args rfl

/-- **Expanding ends where nothing comes back to itself.** An endless row of expansions is one of
    aliases, and a table has only so many. -/
theorem acc_expands {id : DefId}
    (h : ∀ other, ReflTransGen t.Expands id other → ¬ TransGen t.Expands other other) :
    Acc (flip t.Expands) id := by
  refine Classical.byContradiction fun hacc => ?_
  obtain ⟨f, hstart, hstep⟩ := not_acc_iff_exists_descending_chain.mp hacc
  have hlt : ∀ n, f n < t.size := by
    intro n
    obtain ⟨a, ha, -⟩ := hstep n
    exact lt_size_of_get ha
  obtain ⟨m, n, hmn, hsame⟩ :=
    Finite.exists_ne_map_eq_of_infinite fun n => (⟨f n, hlt n⟩ : Fin t.size)
  have hsteps : ∀ {m n}, m < n → TransGen t.Expands (f m) (f n) := fun hmn =>
    Nat.rel_of_forall_rel_succ_of_lt _ (fun k => .single (hstep k)) hmn
  have hreach : ∀ n, ReflTransGen t.Expands id (f n) := by
    intro n
    rw [← hstart]
    exact Nat.rel_of_forall_rel_succ_of_le _ (fun k => .single (hstep k)) (Nat.zero_le n)
  have hsame : f m = f n := congrArg Fin.val hsame
  rcases Nat.lt_or_gt_of_ne hmn with hlt | hlt
  · exact h _ (hreach m) (by simpa [hsame] using hsteps hlt)
  · exact h _ (hreach m) (by simpa [hsame] using hsteps hlt)

/-- **A type is unfolded forever exactly if it leads, over aliases, to one that comes back to
    itself.** -/
theorem unfoldsForever_iff {ty : Ty} :
    ty.UnfoldsForever t ↔ ∃ first id, ty.LeadsTo t first ∧ ReflTransGen t.Expands first id ∧
      TransGen t.Expands id id := by
  constructor
  · intro hforever
    refine Classical.byContradiction fun hnone => ?_
    refine Ty.unfoldsForever_iff_not_acc.mp hforever (acc_of_leadsTo fun first hfirst => ?_)
    exact acc_expands fun id hid hcycle => hnone ⟨first, id, hfirst, hid, hcycle⟩
  · rintro ⟨first, id, hfirst, hid, hcycle⟩
    obtain ⟨args, hargs⟩ := hfirst.unfolds []
    rw [Ty.substitute_nil] at hargs
    have hsteps : ∃ others, ReflTransGen (Ty.Unfolds t) (.named first args) (.named id others) := by
      rcases reflTransGen_iff_eq_or_transGen.mp hid with rfl | hid
      · exact ⟨args, .refl⟩
      · obtain ⟨others, hothers⟩ := unfolds_of_expands hid args
        exact ⟨others, hothers.to_reflTransGen⟩
    obtain ⟨others, hothers⟩ := hsteps
    exact .of_steps (hargs.trans hothers) (unfoldsForever_of_expands hcycle others)

end Expansion

end TypeTable

end WireContract
