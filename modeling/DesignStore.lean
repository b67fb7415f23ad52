import DesignStore.Database.Cells
import DesignStore.Database.Report
import DesignStore.Netlist
import DesignStore.Proofs.VisitOrder
import DesignStore.Proofs.CellCreation
import DesignStore.Proofs.CellNames
import DesignStore.Proofs.ChildCells
import DesignStore.Proofs.Connections
import DesignStore.Proofs.Destroying
import DesignStore.Proofs.Enumeration
import DesignStore.Proofs.Interleaving
import DesignStore.Proofs.PositionHistory
import DesignStore.Proofs.Properties
import DesignStore.Proofs.Refinement
import DesignStore.Proofs.Reparenting
import DesignStore.Proofs.Structure
import DesignStore.Proofs.SymbolUsers
import DesignStore.Proofs.TeardownOrder
import DesignStore.Proofs.Reset
import DesignStore.Proofs.Restoring
import DesignStore.Proofs.Layout
import DesignStore.Proofs.OwnerWalk
import DesignStore.Proofs.Capacity
import DesignStore.Proofs.MemoryReport
import DesignStore.Proofs.Bookkeeping
import DesignStore.Proofs.HeaderRestore
import DesignStore.Proofs.PoolLayout
import DesignStore.Proofs.Refusals
