import ProjectIndex.Scan.Scanner
import ProjectIndex.Watch.Batch

/-!
Between the watcher and the scanner: changes arrive in order, are gathered into batches, and each
batch becomes jobs, which are worked off one at a time in the order of their arrival. Removals of a
batch go before what is to be indexed.
-/
namespace ProjectIndex

inductive Job where
  | indexAll (force : Bool)
  | index (paths : List Path)
  | remove (paths : List Path)
deriving DecidableEq, Inhabited, Repr

def Job.run {σ : Type} (m : Moment) (s : Scanner σ) : Job → Scanner σ × Except Failure ScanReport
  | .indexAll force => s.indexAll m force
  | .index paths => s.indexFiles m paths
  | .remove paths => s.removeFiles m paths

structure Pipeline (σ : Type) where
  incoming : List FileChange
  batch : ChangeBatch
  jobs : List Job
  scanner : Scanner σ

namespace Pipeline

variable {σ : Type}

def start (s : Scanner σ) (jobs : List Job) : Pipeline σ := ⟨[], .empty, jobs, s⟩

def report (p : Pipeline σ) (changes : List FileChange) : Pipeline σ :=
  { p with incoming := p.incoming ++ changes }

def receive (p : Pipeline σ) : Pipeline σ :=
  match p.incoming with
  | [] => p
  | c :: cs => { p with incoming := cs, batch := p.batch.add c }

def jobsOf (b : ChangeBatch) : List Job :=
  (if b.toRemove.isEmpty then [] else [.remove b.toRemove]) ++
    (if b.toIndex.isEmpty then [] else [.index b.toIndex])

def flush (p : Pipeline σ) : Pipeline σ :=
  { p with batch := p.batch.take.2, jobs := p.jobs ++ jobsOf p.batch }

/-- Does the oldest job; one that fails is done with. -/
def work (m : Moment) (p : Pipeline σ) : Pipeline σ :=
  match p.jobs with
  | [] => p
  | j :: js => { p with jobs := js, scanner := (j.run m p.scanner).1 }

def settle (m : Moment) (p : Pipeline σ) : Pipeline σ :=
  let p := (p.incoming.foldl (fun p _ => p.receive) p).flush
  p.jobs.foldl (fun p _ => p.work m) p

end Pipeline
end ProjectIndex
