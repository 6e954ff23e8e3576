/-
The MPI functions of a module.

`get_used_mpi_functions` looks for them by name and keeps a pointer to each; a
function that the module does not use is `nullptr`, here `none`.
-/
import CompMatch.Pass.Module

namespace CompMatch.Pass

/-- The fields of `mpi_functions`. -/
inductive MpiFunction
  | init | initThread | finalize
  | send | bsend | ssend | rsend | isend | ibsend | issend | irsend
  | sendrecv
  | recv | irecv
  | test | wait | waitall | bufferDetach
  | barrier | allreduce | ibarrier | iallreduce
  | start | sendInit | recvInit | requestFree
deriving DecidableEq, Repr

def MpiFunction.name : MpiFunction → String
  | .init => "MPI_Init"
  | .initThread => "MPI_Init_thread"
  | .finalize => "MPI_Finalize"
  | .send => "MPI_Send"
  | .bsend => "MPI_Bsend"
  | .ssend => "MPI_Ssend"
  | .rsend => "MPI_Rsend"
  | .isend => "MPI_Isend"
  | .ibsend => "MPI_Ibsend"
  | .issend => "MPI_Issend"
  | .irsend => "MPI_Irsend"
  | .sendrecv => "MPI_Sendrecv"
  | .recv => "MPI_Recv"
  | .irecv => "MPI_Irecv"
  | .test => "MPI_Test"
  | .wait => "MPI_Wait"
  | .waitall => "MPI_Waitall"
  | .bufferDetach => "MPI_Buffer_detach"
  | .barrier => "MPI_Barrier"
  | .allreduce => "MPI_Allreduce"
  | .ibarrier => "MPI_Ibarrier"
  | .iallreduce => "MPI_Iallreduce"
  | .start => "MPI_Start"
  | .sendInit => "MPI_Send_init"
  | .recvInit => "MPI_Recv_init"
  | .requestFree => "MPI_Request_free"

namespace Module

variable (m : Module)

/-- `get_used_mpi_functions`: the pointer kept for each function. -/
def mpiFunc (n : MpiFunction) : Option FuncId := m.functions.findIdx? (·.getName == n.name)

/-- `is_mpi_function`. -/
def isMpiFunction : Option FuncId → Bool
  | some f => (m.functions[f]?).any fun F => decide ("MPI".toList <:+: F.getName.toList)
  | none => false

/-- `is_mpi_call`. -/
def isMpiCall (c : CallBase) : Bool := m.isMpiFunction c.getCalledFunction

/-- `is_send_function`. -/
def isSendFunction (f : Option FuncId) : Bool :=
  [.send, .bsend, .ssend, .rsend, .isend, .ibsend, .irsend, .issend, .sendrecv, .sendInit].any
    fun n => f == m.mpiFunc n

/-- `is_recv_function`. -/
def isRecvFunction (f : Option FuncId) : Bool :=
  [.recv, .irecv, .sendrecv, .recvInit].any fun n => f == m.mpiFunc n

end Module

end CompMatch.Pass
