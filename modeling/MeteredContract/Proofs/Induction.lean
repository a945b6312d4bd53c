import MeteredContract.Program.Stmt
import MeteredContract.Value.Basic

/-!
Induction over types, expressions, statements and values. They contain lists of themselves, so each
gets a principle whose hypothesis speaks of the members of these lists.
-/

set_option autoImplicit false
set_option relaxedAutoImplicit false

namespace MeteredContract

@[induction_eliminator]
theorem Ty.inductionOn {motive : Ty → Prop} (prim : ∀ p, motive (.prim p))
    (map : ∀ key val, motive key → motive val → motive (.map key val))
    (fn : ∀ arg res, motive arg → motive res → motive (.fn arg res))
    (data : ∀ name args, (∀ t ∈ args, motive t) → motive (.data name args))
    (var : ∀ name, motive (.var name))
    (poly : ∀ name body, motive body → motive (.poly name body)) (unit : motive .unit)
    (address : ∀ a : AddressTy, (∀ f ∈ a.fields, motive f.2) → motive (.address a)) (t : Ty) :
    motive t :=
  @Ty.rec motive (fun args ↦ ∀ t ∈ args, motive t) (fun a ↦ ∀ f ∈ a.fields, motive f.2)
    (fun fields ↦ ∀ f ∈ fields, motive f.2) (fun f ↦ motive f.2)
    prim map fn data var poly unit address
    nofun (fun _ _ hhead htail ↦ List.forall_mem_cons.mpr ⟨hhead, htail⟩) (fun _ _ h ↦ h)
    nofun (fun _ _ hhead htail ↦ List.forall_mem_cons.mpr ⟨hhead, htail⟩) (fun _ _ h ↦ h) t

@[induction_eliminator]
theorem Expr.inductionOn {motive : Expr → Prop} (literal : ∀ l, motive (.literal l))
    (var : ∀ x, motive (.var x))
    (letIn : ∀ x declared rhs body, motive rhs → motive body →
      motive (.letIn x declared rhs body))
    (message : ∀ entries, motive (.message entries))
    (fn : ∀ param ty body, motive body → motive (.fn param ty body))
    (app : ∀ func args, motive (.app func args))
    (construct : ∀ name targs args, motive (.construct name targs args))
    (matching : ∀ scrutinee clauses, (∀ c ∈ clauses, motive c.2) →
      motive (.matching scrutinee clauses))
    (builtin : ∀ op targs args, motive (.builtin op targs args))
    (tyFn : ∀ tvar body, motive body → motive (.tyFn tvar body))
    (tyApp : ∀ func targs, motive (.tyApp func targs))
    (fix : ∀ name ty body, motive body → motive (.fix name ty body))
    (gas : ∀ charge body, motive body → motive (.gas charge body))
    (located : ∀ span e, motive e → motive (.located span e)) (e : Expr) : motive e :=
  @Expr.rec motive (fun clauses ↦ ∀ c ∈ clauses, motive c.2) (fun c ↦ motive c.2)
    literal var letIn message fn app construct matching builtin tyFn tyApp fix gas located
    nofun (fun _ _ hhead htail ↦ List.forall_mem_cons.mpr ⟨hhead, htail⟩) (fun _ _ h ↦ h) e

@[induction_eliminator]
theorem Stmt.inductionOn {motive : Stmt → Prop} (load : ∀ x field, motive (.load x field))
    (remoteLoad : ∀ x addr field, motive (.remoteLoad x addr field))
    (store : ∀ field value, motive (.store field value))
    (bind : ∀ x e, motive (.bind x e))
    (mapUpdate : ∀ map keys value, motive (.mapUpdate map keys value))
    (mapGet : ∀ x map keys fetch, motive (.mapGet x map keys fetch))
    (remoteMapGet : ∀ x addr map keys fetch, motive (.remoteMapGet x addr map keys fetch))
    (readChain : ∀ x query, motive (.readChain x query))
    (cast : ∀ x addr ty, motive (.cast x addr ty))
    (matching : ∀ scrutinee clauses, (∀ c ∈ clauses, ∀ st ∈ c.2, motive st) →
      motive (.matching scrutinee clauses))
    (accept : motive .accept) (send : ∀ msgs, motive (.send msgs))
    (event : ∀ msg, motive (.event msg)) (call : ∀ proc args, motive (.call proc args))
    (forEach : ∀ list proc, motive (.forEach list proc))
    (throw : ∀ exception, motive (.throw exception)) (gas : ∀ charge, motive (.gas charge))
    (located : ∀ span st, motive st → motive (.located span st)) (st : Stmt) : motive st :=
  @Stmt.rec motive (fun clauses ↦ ∀ c ∈ clauses, ∀ st ∈ c.2, motive st)
    (fun c ↦ ∀ st ∈ c.2, motive st) (fun block ↦ ∀ st ∈ block, motive st)
    load remoteLoad store bind mapUpdate mapGet remoteMapGet readChain cast matching accept send
    event call forEach throw gas located
    nofun (fun _ _ hhead htail ↦ List.forall_mem_cons.mpr ⟨hhead, htail⟩) (fun _ _ h ↦ h)
    nofun (fun _ _ hhead htail ↦ List.forall_mem_cons.mpr ⟨hhead, htail⟩) st

@[induction_eliminator]
theorem Value.inductionOn {motive : Value → Prop} (int : ∀ i, motive (.int i))
    (str : ∀ s, motive (.str s)) (bnum : ∀ n, motive (.bnum n))
    (bystrx : ∀ bytes, motive (.bystrx bytes)) (bystr : ∀ bytes, motive (.bystr bytes))
    (closure : ∀ id param ty body env, motive (.closure id param ty body env))
    (tyClosure : ∀ id tvar body env, motive (.tyClosure id tvar body env))
    (data : ∀ tyName constructor targs args, (∀ v ∈ args, motive v) →
      motive (.data tyName constructor targs args))
    (map : ∀ m : MapValue, (∀ e ∈ m.entries, motive e.1 ∧ motive e.2) → motive (.map m))
    (message : ∀ entries : List MessageEntry, (∀ e ∈ entries, motive e.value) →
      motive (.message entries)) (v : Value) : motive v :=
  @Value.rec motive (fun args ↦ ∀ v ∈ args, motive v)
    (fun m ↦ ∀ e ∈ m.entries, motive e.1 ∧ motive e.2)
    (fun entries ↦ ∀ e ∈ entries, motive e.value)
    (fun entries ↦ ∀ e ∈ entries, motive e.1 ∧ motive e.2)
    (fun e ↦ motive e.value) (fun e ↦ motive e.1 ∧ motive e.2)
    int str bnum bystrx bystr closure tyClosure data map message
    nofun (fun _ _ hhead htail ↦ List.forall_mem_cons.mpr ⟨hhead, htail⟩) (fun _ _ _ h ↦ h)
    nofun (fun _ _ hhead htail ↦ List.forall_mem_cons.mpr ⟨hhead, htail⟩)
    nofun (fun _ _ hhead htail ↦ List.forall_mem_cons.mpr ⟨hhead, htail⟩)
    (fun _ _ _ h ↦ h) (fun _ _ hkey hval ↦ ⟨hkey, hval⟩) v

end MeteredContract
