import Ccat.Spec.BoardPublished
import Ccat.Spec.CdevHandles
import Ccat.Spec.CdevOpenCorrect
import Ccat.Spec.CdevProbeFailure
import Ccat.Spec.CdevRefcount
import Ccat.Spec.EimCorrect
import Ccat.Spec.EthDescriptor
import Ccat.Spec.EthEimTx
import Ccat.Spec.EthEimTxFrame
import Ccat.Spec.EthLedger
import Ccat.Spec.EthLifeCorrect
import Ccat.Spec.EthProbeCorrect
import Ccat.Spec.EthQueueCorrect
import Ccat.Spec.EthRxDmaChannel
import Ccat.Spec.EthRxDrain
import Ccat.Spec.EthRxEimChannel
import Ccat.Spec.EthSlots
import Ccat.Spec.EthStatsCorrect
import Ccat.Spec.EthStatsExact
import Ccat.Spec.EthTxOrder
import Ccat.Spec.EthTxProgress
import Ccat.Spec.EthWindow
import Ccat.Spec.FunctionsCorrect
import Ccat.Spec.GpioLevel
import Ccat.Spec.GpioPins
import Ccat.Spec.PciCorrect
import Ccat.Spec.SramConcurrent
import Ccat.Spec.SramFiles
import Ccat.Spec.SystemtimeCorrect
import Ccat.Spec.UpdateImage
import Ccat.Spec.UpdateScriptSafe
import Ccat.Spec.UpdateStore
